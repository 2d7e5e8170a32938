/-
Module: RincOs.Proofs.BootStrings
Purpose: The strings of the bootloader survive their import: the spans in the boot
  information name copies of them, whole and apart, in the importer's buffer.
Trusted boundary: none
Main exports:
  ImportGood, CStringAt, Given, Names, Imported, cstrView_pointer, storedOption_names,
  bootStrings_imported, bootStrings_oneEntry
-/
import RincOs.Boot.Strings
import RincOs.Proofs.MemoryMap

namespace RincOs

open ByteMemory

/-! ### What the bootloader guarantees -/

/-- The memory map as `convert_memmap_entries` leaves it in the buffer. -/
def LimineResponses.converted (responses : LimineResponses) : List MemMapEntry :=
  ((responses.memmap.getD []).take maxMemmap).map convertEntry

/-- A supported revision, a direct map in the higher half, and a converted memory map
of disjoint entries that the direct map reaches. -/
structure ImportGood (responses : LimineResponses) : Prop where
  valid : responses.revisionValid = true
  supported : responses.revisionSupported = true
  hhdm_high : 2 ^ 63 ≤ (responses.hhdm.getD 0).toNat
  hhdm_reaches : (responses.hhdm.getD 0).toNat ≤ 2 ^ 64 - 2 ^ 47
  below : ∀ entry ∈ responses.converted, entry.base.toNat + entry.len.toNat ≤ 2 ^ 47
  disjoint : responses.converted.Pairwise fun a b => ∀ x, ¬ (a.Covers x ∧ b.Covers x)

/-- The bytes of the static buffers. -/
def ImportStatics.Owns (statics : ImportStatics) (a : Nat) : Prop :=
  statics.membuf.phys.toNat ≤ a ∧ a < statics.membuf.phys.toNat + memMapEntrySize * maxMemmap ∨
    statics.strbuf.phys.toNat ≤ a ∧ a < statics.strbuf.phys.toNat + strbufSize

/-- A C string of 1 to 1023 bytes in an entry of the map, outside the static buffers. -/
structure CStringAt (statics : ImportStatics) (m : Mem) (map : List MemMapEntry) (phys : Word)
    (text : List (BitVec 8)) : Prop where
  nonempty : 1 ≤ text.length
  short : text.length ≤ 1023
  nonzero : 0 ∉ text
  stored : readBytes m phys.toNat text.length = text
  terminated : byteAt m (phys.toNat + text.length) = 0
  inside : ∃ entry ∈ map, entry.Covers phys.toNat ∧ entry.Covers (phys.toNat + text.length)
  outside : ∀ i ≤ text.length, ¬ statics.Owns (phys.toNat + i)

/-- A pointer of the bootloader and the string it gives: none, or one at its physical
or its direct-map address. -/
inductive Given (statics : ImportStatics) (m : Mem) (map : List MemMapEntry)
    (hhdmOffset : Word) : Option Word → Option (List (BitVec 8)) → Prop
  | missing : Given statics m map hhdmOffset none none
  | null : Given statics m map hhdmOffset (some 0) none
  | pointer {ptr phys : Word} {text : List (BitVec 8)} :
      ptr ≠ 0 → (ptr = phys ∨ ptr = phys + hhdmOffset) → CStringAt statics m map phys text →
      Given statics m map hhdmOffset (some ptr) (some text)

variable {statics : ImportStatics} {m : Mem} {map : List MemMapEntry} {hhdmOffset : Word}
variable {view : MemMapView} {s : ImportState} {ptr phys : Word} {text : List (BitVec 8)}

/-! ### The map in the buffer -/

/-- While strings are imported `MEMBUF` holds the map, and memory outside the static
buffers is as the bootloader left it. -/
structure Imported (statics : ImportStatics) (m : Mem) (map : List MemMapEntry) (m' : Mem) :
    Prop where
  fits : map.length ≤ maxMemmap
  entries : ∀ i entry, map[i]? = some entry → statics.membuf.entry m' i = entry
  others : ∀ a < 2 ^ 64, ¬ statics.Owns a → byteAt m' a = byteAt m a

/-- The view describes the map in the buffer. -/
structure Describes (view : MemMapView) (map : List MemMapEntry) : Prop where
  count : view.entryCount.toNat = map.length
  size : view.entrySize.toNat = memMapEntrySize
  mapped : map ≠ [] → view.entriesPtr ≠ 0

theorem Membuf.fill_other {membuf : Membuf} {entries : List LimineEntry} {i : Nat} {x : Word}
    (room : i + entries.length ≤ maxMemmap)
    (other : ∀ n < 3 * maxMemmap, x ≠ membuf.word n) : membuf.fill i entries m x = m x := by
  induction entries generalizing i m with
  | nil => rfl
  | cons entry entries inductionHypothesis =>
      rw [List.length_cons] at room
      rw [fill, inductionHypothesis (by omega), store,
        Function.update_of_ne (other _ (by omega)), Function.update_of_ne (other _ (by omega)),
        Function.update_of_ne (other _ (by omega))]

/-- The words of `MEMBUF`, by their numbers. -/
theorem ImportStatics.membuf_word (statics : ImportStatics) (n : Nat) :
    statics.membuf.word n = BitVec.ofNat 64 (statics.membuf.phys.toNat + 8 * n) := by
  rw [Membuf.word, BitVec.ofNat_add, BitVec.ofNat_toNat, BitVec.setWidth_eq]

/-- A byte outside the static buffers is in no word of `MEMBUF`. -/
theorem ImportStatics.wordOf_ne (statics : ImportStatics) {a n : Nat} (range : a < 2 ^ 64)
    (free : ¬ statics.Owns a) (inside : n < 3 * maxMemmap) :
    wordOf a ≠ statics.membuf.word n := by
  have aligned := statics.membuf_aligned
  have fits := statics.membuf_fits
  rw [memMapEntrySize, maxMemmap] at fits
  rw [Owns, memMapEntrySize, maxMemmap] at free
  rw [maxMemmap] at inside
  intro same
  have numbers := congrArg BitVec.toNat same
  rw [membuf_word, wordOf, BitVec.toNat_ofNat, BitVec.toNat_ofNat] at numbers
  omega

theorem describes_empty : Describes emptyMemmapView.1 [] where
  count := rfl
  size := rfl
  mapped := fun nonempty => absurd rfl nonempty

theorem imported_empty (statics : ImportStatics) (m : Mem) : Imported statics m [] m where
  fits := Nat.zero_le _
  entries := fun _ _ found => nomatch found
  others := fun _ _ _ => rfl

/-- The buffer after the loop of `convert_memmap_entries`. -/
theorem imported_fill (statics : ImportStatics) (m : Mem) {entries : List LimineEntry}
    (room : entries.length ≤ maxMemmap) :
    Imported statics m (entries.map convertEntry) (statics.membuf.fill 0 entries m) where
  fits := by
    rw [List.length_map]
    exact room
  entries := by
    intro i entry found
    rw [List.getElem?_map] at found
    have inside : i < maxMemmap := by
      obtain ⟨element, isElement, -⟩ := Option.map_eq_some_iff.mp found
      exact Nat.lt_of_lt_of_le (List.getElem?_eq_some_iff.mp isElement).1 room
    rw [Membuf.entry_fill (by omega) inside, if_pos (Nat.zero_le i), Nat.sub_zero, found]
    rfl
  others := by
    intro a range free
    have kept : statics.membuf.fill 0 entries m (wordOf a) = m (wordOf a) :=
      Membuf.fill_other (by omega) fun n inside => statics.wordOf_ne range free inside
    rw [byteAt, kept, byteAt]

/-- The conversion leaves the map in the buffer and describes it. -/
theorem imported_convert (statics : ImportStatics) (m : Mem) (entries : List LimineEntry) :
    Describes (convertMemmapEntries statics.membuf entries m).1.1
        ((entries.take maxMemmap).map convertEntry) ∧
      Imported statics m ((entries.take maxMemmap).map convertEntry)
        (convertMemmapEntries statics.membuf entries m).2 := by
  cases entries with
  | nil => exact ⟨describes_empty, imported_empty statics m⟩
  | cons first entries =>
      obtain ⟨all, isAll⟩ : ∃ all, all = first :: entries := ⟨_, rfl⟩
      have taken : all.take (min all.length maxMemmap) = all.take maxMemmap := by
        rw [Nat.min_comm, ← List.take_take, List.take_length]
      have converted : convertMemmapEntries statics.membuf all m = _ :=
        if_neg (by rw [isAll]; exact Bool.false_ne_true)
      rw [← isAll, converted]
      dsimp only
      rw [taken]
      refine ⟨⟨?_, rfl, fun _ => statics.membuf_mapped⟩, ?_⟩
      · rw [List.length_map, List.length_take, BitVec.toNat_ofNat, Nat.min_comm]
        apply Nat.mod_eq_of_lt
        exact Nat.lt_of_le_of_lt (Nat.min_le_left _ _) (by decide)
      · exact imported_fill statics m (List.length_take_le _ _)

/-- What is written to `STRBUF` disturbs neither the map nor other memory. -/
theorem Imported.write {m' : Mem} (imported : Imported statics m map m') {off : Nat}
    (room : off + text.length ≤ strbufSize) :
    Imported statics m map
      (writeBytes m' (statics.strbuf.phys.toNat + off) text) := by
  have fits := statics.strbuf_fits
  have apart := statics.apart
  rw [strbufSize] at room fits apart
  refine ⟨imported.fits, ?_, ?_⟩
  · intro i entry found
    rw [← imported.entries i entry found]
    have inside : i < maxMemmap :=
      Nat.lt_of_lt_of_le (List.getElem?_eq_some_iff.mp found).1 imported.fits
    apply Membuf.entry_congr inside
    intro n small
    have aligned := statics.membuf_aligned
    have membufFits := statics.membuf_fits
    rw [memMapEntrySize, maxMemmap] at membufFits apart
    rw [maxMemmap] at small
    rw [statics.membuf_word n]
    apply word_writeBytes <;> omega
  · intro a range free
    rw [ImportStatics.Owns, strbufSize] at free
    rw [byteAt_writeBytes_outside (by omega) range (by omega)]
    apply imported.others a range
    rw [ImportStatics.Owns, strbufSize]
    exact free

/-! ### Finding a string -/

theorem toNat_last {entry : MemMapEntry}
    (fits : entry.base.toNat + entry.len.toNat < 2 ^ 64) :
    (entry.base + entry.len).toNat = entry.base.toNat + entry.len.toNat := by
  rw [BitVec.toNat_add, Nat.mod_eq_of_lt fits]

theorem covers_iff {entry : MemMapEntry}
    (fits : entry.base.toNat + entry.len.toNat < 2 ^ 64) (phys : Word) :
    (phys ≥ entry.base ∧ phys < entry.base + entry.len) ↔ entry.Covers phys.toNat := by
  rw [MemMapEntry.Covers, ge_iff_le, BitVec.le_def, BitVec.lt_def, toNat_last fits]

/-- An entry that covers the address decides. -/
theorem physAvailable_covered {entry : MemMapEntry} {map : List MemMapEntry} {phys : Word}
    (fits : entry.base.toNat + entry.len.toNat < 2 ^ 64) (covers : entry.Covers phys.toNat) :
    physAvailable phys (entry :: map) = some (entry.base + entry.len - phys) ∧
      (entry.base + entry.len - phys).toNat =
        entry.base.toNat + entry.len.toNat - phys.toNat := by
  constructor
  · simp only [physAvailable, checkedAdd, if_pos fits, Option.bind_eq_bind, Option.bind_some]
    exact if_pos ((covers_iff fits phys).mpr covers)
  · have below : phys ≤ entry.base + entry.len := by
      rw [BitVec.le_def, toNat_last fits]
      exact covers.2.le
    rw [BitVec.toNat_sub_of_le below, toNat_last fits]

theorem physAvailable_uncovered {entry : MemMapEntry} {map : List MemMapEntry} {phys : Word}
    (fits : entry.base.toNat + entry.len.toNat < 2 ^ 64)
    (uncovered : ¬ entry.Covers phys.toNat) :
    physAvailable phys (entry :: map) = physAvailable phys map := by
  simp only [physAvailable, checkedAdd, if_pos fits, Option.bind_eq_bind, Option.bind_some]
  exact if_neg fun covers => uncovered ((covers_iff fits phys).mp covers)

/-- In a map of disjoint entries the entry that covers an address decides. -/
theorem physAvailable_eq {entry : MemMapEntry} {map : List MemMapEntry}
    (below : ∀ e ∈ map, e.base.toNat + e.len.toNat ≤ 2 ^ 47)
    (disjoint : map.Pairwise fun a b => ∀ x, ¬ (a.Covers x ∧ b.Covers x))
    (among : entry ∈ map) (covers : entry.Covers phys.toNat) :
    ∃ max, physAvailable phys map = some max ∧
      max.toNat = entry.base.toNat + entry.len.toNat - phys.toNat := by
  induction map with
  | nil => cases among
  | cons first map inductionHypothesis =>
      have fits : first.base.toNat + first.len.toNat < 2 ^ 64 :=
        Nat.lt_of_le_of_lt (below first List.mem_cons_self) (by decide)
      obtain ⟨apart, disjoint⟩ := List.pairwise_cons.mp disjoint
      by_cases isFirst : first.Covers phys.toNat
      · -- no later entry covers the address, so `entry` is the first one
        have same : entry = first := by
          rcases List.mem_cons.mp among with same | later
          · exact same
          · exact absurd ⟨isFirst, covers⟩ (apart entry later phys.toNat)
        rw [same]
        exact ⟨_, physAvailable_covered fits isFirst⟩
      · have later : entry ∈ map := by
          rcases List.mem_cons.mp among with same | later
          · exact absurd (same ▸ covers) isFirst
          · exact later
        rw [physAvailable_uncovered fits isFirst]
        exact inductionHypothesis (fun e inside => below e (.tail _ inside)) disjoint later

/-- The NUL search stops at the end of the string. -/
theorem findIdx_cstring {m' : Mem} {a n : Nat} (nonzero : 0 ∉ text)
    (stored : readBytes m' a text.length = text) (terminated : byteAt m' (a + text.length) = 0)
    (enough : text.length < n) :
    (readBytes m' a n).findIdx? (· = 0) = some text.length := by
  rw [List.findIdx?_eq_some_iff_getElem]
  refine ⟨by rw [length_readBytes]; exact enough, ?_, ?_⟩
  · rw [getElem_readBytes, terminated]
    rfl
  · intro j before isZero
    have byte : text[j]? = some (byteAt m' (a + j)) := by
      rw [← getElem?_readBytes before, stored]
    rw [getElem_readBytes, decide_eq_true_eq] at isZero
    rw [isZero] at byte
    exact nonzero (List.mem_of_getElem? byte)

section

variable {responses : LimineResponses} {m' : Mem}

/-- Both kinds of pointers resolve to the direct-map address and to the room left in
the entry. -/
theorem resolveLiminePtr_eq (good : ImportGood responses)
    (points : ptr = phys ∨ ptr = phys + responses.hhdm.getD 0) {entry : MemMapEntry}
    (among : entry ∈ responses.converted) (covers : entry.Covers phys.toNat) :
    ∃ max, resolveLiminePtr ptr (responses.hhdm.getD 0) responses.converted =
        some (phys + responses.hhdm.getD 0, max) ∧
      max.toNat = entry.base.toNat + entry.len.toNat - phys.toNat := by
  obtain ⟨h, isH⟩ : ∃ h, h = responses.hhdm.getD 0 := ⟨_, rfl⟩
  have high := good.hhdm_high
  have reaches := good.hhdm_reaches
  have low : phys.toNat < 2 ^ 47 := Nat.lt_of_lt_of_le covers.2 (good.below entry among)
  rw [← isH] at points high reaches ⊢
  have nonzero : h ≠ 0 := by
    intro zero
    rw [zero] at high
    exact absurd high (by decide)
  obtain ⟨max, available, room⟩ := physAvailable_eq good.below good.disjoint among covers
  refine ⟨max, ?_, room⟩
  rcases points with rfl | rfl
  · have physical : ptr < h := BitVec.lt_def.mpr (by omega)
    rw [resolveLiminePtr, if_pos ⟨nonzero, physical⟩, available]
    rfl
  · have mapped : ¬ (h ≠ 0 ∧ phys + h < h) := by
      rw [BitVec.lt_def, BitVec.toNat_add]
      omega
    rw [resolveLiminePtr, if_neg mapped, if_pos nonzero, BitVec.add_sub_cancel]
    dsimp only
    rw [available]
    rfl

/-- The string as it is found while strings are imported. -/
theorem CStringAt.kept (cstring : CStringAt statics m map phys text)
    (below : ∀ e ∈ map, e.base.toNat + e.len.toNat ≤ 2 ^ 47)
    (imported : Imported statics m map m') :
    readBytes m' phys.toNat text.length = text ∧
      byteAt m' (phys.toNat + text.length) = 0 := by
  obtain ⟨entry, among, -, last⟩ := cstring.inside
  have reach : phys.toNat + text.length < 2 ^ 47 :=
    Nat.lt_of_lt_of_le last.2 (below entry among)
  have same : ∀ i ≤ text.length, byteAt m' (phys.toNat + i) = byteAt m (phys.toNat + i) :=
    fun i inside => imported.others _ (by omega) (cstring.outside i inside)
  rw [same _ le_rfl, cstring.terminated, readBytes_congr fun i inside => same i inside.le]
  exact ⟨cstring.stored, rfl⟩

/-- The entries `cstr_view` reads. -/
theorem Imported.read (imported : Imported statics m map m') (describes : Describes view map) :
    (List.range view.entryCount.toNat).map (statics.membuf.entry m') = map := by
  rw [describes.count]
  apply List.ext_getElem?
  intro i
  rw [List.getElem?_map]
  rcases Nat.lt_or_ge i map.length with inside | beyond
  · have found := List.getElem?_eq_getElem inside
    rw [List.getElem?_range inside, found, Option.map_some, imported.entries i _ found]
  · rw [List.getElem?_eq_none beyond, List.getElem?_eq_none (by simpa using beyond)]
    rfl

/-- A pointer to a C string gives a view of the string. -/
theorem cstrView_pointer (good : ImportGood responses)
    (imported : Imported statics m responses.converted m')
    (describes : Describes view responses.converted) (nonnull : ptr ≠ 0)
    (points : ptr = phys ∨ ptr = phys + responses.hhdm.getD 0)
    (cstring : CStringAt statics m responses.converted phys text) :
    cstrView statics ptr (responses.hhdm.getD 0) view m' =
      some { ptr := phys + responses.hhdm.getD 0, len := text.length } := by
  obtain ⟨entry, among, covers, last⟩ := cstring.inside
  obtain ⟨max, resolved, room⟩ := resolveLiminePtr_eq good points among covers
  obtain ⟨kept, terminated⟩ := cstring.kept good.below imported
  have usable : ¬ (ptr = 0 ∨ view.entriesPtr = 0 ∨ view.entryCount = 0 ∨
      view.entrySize.toNat ≠ memMapEntrySize) := by
    rintro (null | unmapped | none | other)
    · exact nonnull null
    · exact describes.mapped (List.ne_nil_of_mem among) unmapped
    · have count := describes.count
      rw [none] at count
      exact absurd count.symm (List.length_pos_of_mem among).ne'
    · exact other describes.size
  have long : text.length < min max.toNat maxStrBytes := by
    have short := cstring.short
    have bound := last.2
    rw [maxStrBytes]
    omega
  have positive : ¬ min max.toNat maxStrBytes = 0 := by omega
  have nonempty : ¬ text.length = 0 := Nat.ne_of_gt cstring.nonempty
  simp only [cstrView, if_neg usable, imported.read describes, resolved, if_neg positive,
    StrView.bytes, BitVec.add_sub_cancel, Option.bind_eq_bind, Option.bind_some,
    findIdx_cstring cstring.nonzero kept terminated long, if_neg nonempty]

theorem cstrView_null : cstrView statics 0 hhdmOffset view m' = none :=
  if_pos (.inl rfl)

end

/-! ### Keeping a string -/

/-- The text at the next place in the buffer, with its span. -/
def stored (statics : ImportStatics) (text : List (BitVec 8)) (s : ImportState) :
    ByteSpan × ImportState :=
  ({ ptr := statics.strbuf.ptr + BitVec.ofNat 64 (strbufNext s)
     len := BitVec.ofNat 32 text.length },
    { mem := writeBytes s.mem (statics.strbuf.phys.toNat + strbufNext s) text
      used := strbufNext s + text.length })

theorem strbufAllocCopy_eq {view : StrView} (length : view.len = text.length)
    (bytes : view.bytes hhdmOffset s.mem = text) (nonempty : 1 ≤ text.length)
    (room : strbufNext s + text.length ≤ strbufSize) :
    strbufAllocCopy statics hhdmOffset view s = stored statics text s := by
  have notEmpty : ¬ text.length = 0 := by omega
  simp only [strbufAllocCopy, length, if_neg notEmpty, if_neg (Nat.not_lt.mpr room), bytes,
    stored]

/-- The second string is read after the first has been written. -/
theorem strbufAllocJoin_eq {a b : StrView} {first second : List (BitVec 8)}
    (firstLength : a.len = first.length) (secondLength : b.len = second.length)
    (firstBytes : a.bytes hhdmOffset s.mem = first)
    (secondBytes : b.bytes hhdmOffset (writeBytes s.mem
      (statics.strbuf.phys.toNat + strbufNext s) (first ++ [0x20])) = second)
    (firstNonempty : 1 ≤ first.length) (secondNonempty : 1 ≤ second.length)
    (room : strbufNext s + (first ++ [0x20] ++ second).length ≤ strbufSize) :
    strbufAllocJoin statics hhdmOffset a b s = stored statics (first ++ [0x20] ++ second) s := by
  simp only [List.length_append, List.length_singleton] at room
  have firstNotEmpty : ¬ a.len = 0 := by omega
  have secondNotEmpty : ¬ b.len = 0 := by omega
  have enough : ¬ strbufNext s + (a.len + [(0x20 : BitVec 8)].length + b.len) > strbufSize := by
    rw [List.length_singleton]
    omega
  -- the two copies in front of the second string are one write
  have twice : writeBytes (writeBytes s.mem (statics.strbuf.phys.toNat + strbufNext s) first)
      (statics.strbuf.phys.toNat + (strbufNext s + a.len)) [0x20] =
      writeBytes s.mem (statics.strbuf.phys.toNat + strbufNext s) (first ++ [0x20]) := by
    rw [writeBytes_append, firstLength, Nat.add_assoc]
  simp only [strbufAllocJoin, if_neg firstNotEmpty, if_neg secondNotEmpty, if_neg enough,
    firstBytes, twice, secondBytes, stored]
  rw [writeBytes_append _ (first ++ [0x20])]
  simp only [List.length_append, List.length_singleton, firstLength, secondLength,
    Nat.add_assoc]

/-- The text, if there is one. -/
def storedOption (statics : ImportStatics) (text : Option (List (BitVec 8))) (s : ImportState) :
    ByteSpan × ImportState :=
  match text with
  | none => (.empty, s)
  | some text => stored statics text s

/-- The span names the text: it lies in the first `used` bytes of the buffer, which hold
the text there; without a text it is empty. -/
structure Names (statics : ImportStatics) (used : Nat) (m : Mem) (span : ByteSpan)
    (text : Option (List (BitVec 8))) : Prop where
  absent : text = none → span = .empty
  present : ∀ bytes, text = some bytes → span.len.toNat = bytes.length ∧
    ∃ off, span.ptr.toNat = statics.strbuf.ptr.toNat + off ∧ off + bytes.length ≤ used ∧
      readBytes m (statics.strbuf.phys.toNat + off) bytes.length = bytes

/-- Address `x` belongs to the span. -/
def ByteSpan.Covers (span : ByteSpan) (x : Nat) : Prop :=
  span.ptr.toNat ≤ x ∧ x < span.ptr.toNat + span.len.toNat

/-- A text is not empty and finds room from the next place on. -/
def Fits (text : Option (List (BitVec 8))) (s : ImportState) : Prop :=
  ∀ bytes, text = some bytes →
    1 ≤ bytes.length ∧ strbufNext s + bytes.length ≤ strbufSize

theorem stored_ptr (nonempty : 1 ≤ text.length)
    (room : strbufNext s + text.length ≤ strbufSize) :
    (stored statics text s).1.ptr.toNat = statics.strbuf.ptr.toNat + strbufNext s := by
  have mapped := statics.strbuf_mapped
  rw [strbufSize] at room mapped
  rw [stored, BitVec.toNat_add, BitVec.toNat_ofNat]
  omega

theorem stored_len (room : strbufNext s + text.length ≤ strbufSize) :
    (stored statics text s).1.len.toNat = text.length := by
  rw [strbufSize] at room
  rw [stored, BitVec.toNat_ofNat]
  omega

theorem used_le_next (s : ImportState) : s.used ≤ strbufNext s := by
  rw [strbufNext]
  omega

theorem used_le_storedOption (statics : ImportStatics) (text : Option (List (BitVec 8)))
    (s : ImportState) : s.used ≤ (storedOption statics text s).2.used := by
  cases text with
  | none => exact le_rfl
  | some bytes => exact (used_le_next s).trans (Nat.le_add_right _ _)

/-- The new span names the text. -/
theorem storedOption_names {text : Option (List (BitVec 8))} (fits : Fits text s) :
    Names statics (storedOption statics text s).2.used (storedOption statics text s).2.mem
      (storedOption statics text s).1 text := by
  constructor
  · rintro rfl
    rfl
  · rintro bytes rfl
    obtain ⟨nonempty, room⟩ := fits bytes rfl
    have physical := statics.strbuf_fits
    refine ⟨stored_len room, strbufNext s, stored_ptr nonempty room, le_rfl, ?_⟩
    exact readBytes_writeBytes (by omega)

/-- An earlier span keeps naming its text. -/
theorem Names.kept {span : ByteSpan} {old text : Option (List (BitVec 8))}
    (names : Names statics s.used s.mem span old) (fits : Fits text s) :
    Names statics (storedOption statics text s).2.used (storedOption statics text s).2.mem
      span old := by
  refine ⟨names.absent, ?_⟩
  intro bytes isOld
  obtain ⟨length, off, start, inside, reads⟩ := names.present bytes isOld
  refine ⟨length, off, start, inside.trans (used_le_storedOption statics text s), ?_⟩
  cases text with
  | none => exact reads
  | some new =>
      obtain ⟨-, room⟩ := fits new rfl
      have physical := statics.strbuf_fits
      have next := used_le_next s
      rw [strbufSize] at room physical
      apply Eq.trans _ reads
      apply readBytes_congr
      intro i small
      exact byteAt_writeBytes_outside (by omega) (by omega) (by omega)

/-- The new span lies behind the earlier ones. -/
theorem Names.apart {span : ByteSpan} {old text : Option (List (BitVec 8))}
    (names : Names statics s.used s.mem span old) (fits : Fits text s) (x : Nat) :
    ¬ (span.Covers x ∧ (storedOption statics text s).1.Covers x) := by
  rintro ⟨⟨first, firstEnd⟩, second, secondEnd⟩
  cases old with
  | none =>
      rw [names.absent rfl] at firstEnd
      exact absurd firstEnd (Nat.not_lt_zero x)
  | some bytes =>
      cases text with
      | none => exact absurd secondEnd (Nat.not_lt_zero x)
      | some new =>
          obtain ⟨length, off, start, inside, -⟩ := names.present bytes rfl
          obtain ⟨nonempty, room⟩ := fits new rfl
          have next := used_le_next s
          have behind : (storedOption statics (some new) s).1.ptr.toNat = _ :=
            stored_ptr nonempty room
          omega

/-! ### The two spans -/

/-- Name and version, or the one there is. -/
def joined : Option (List (BitVec 8)) → Option (List (BitVec 8)) → Option (List (BitVec 8))
  | some name, some version => some (name ++ [0x20] ++ version)
  | some name, none => some name
  | none, version => version

/-- The view `cstr_view` answers for a text. -/
inductive Found (statics : ImportStatics) (m : Mem) (map : List MemMapEntry)
    (hhdmOffset : Word) : Option StrView → Option (List (BitVec 8)) → Prop
  | none : Found statics m map hhdmOffset none none
  | some {phys : Word} {text : List (BitVec 8)} : CStringAt statics m map phys text →
      Found statics m map hhdmOffset
        (some { ptr := phys + hhdmOffset, len := text.length }) (some text)

theorem Imported.storedOption {text : Option (List (BitVec 8))}
    (imported : Imported statics m map s.mem) (fits : Fits text s) :
    Imported statics m map (RincOs.storedOption statics text s).2.mem := by
  cases text with
  | none => exact imported
  | some bytes => exact imported.write (fits bytes rfl).2

section

variable {responses : LimineResponses} {m' : Mem}

theorem Given.found {pointer : Option Word} {text : Option (List (BitVec 8))}
    (given : Given statics m responses.converted (responses.hhdm.getD 0) pointer text)
    (good : ImportGood responses) (imported : Imported statics m responses.converted m')
    (describes : Describes view responses.converted) :
    Found statics m responses.converted (responses.hhdm.getD 0)
      (pointer.bind fun ptr => cstrView statics ptr (responses.hhdm.getD 0) view m') text := by
  cases given with
  | missing => exact .none
  | null =>
      rw [Option.bind_some, cstrView_null]
      exact .none
  | pointer nonnull points cstring =>
      rw [Option.bind_some, cstrView_pointer good imported describes nonnull points cstring]
      exact .some cstring

/-- The slice of a found view, while strings are imported. -/
theorem CStringAt.bytes (cstring : CStringAt statics m responses.converted phys text)
    (good : ImportGood responses) (imported : Imported statics m responses.converted m') :
    StrView.bytes (responses.hhdm.getD 0) m'
      { ptr := phys + responses.hhdm.getD 0, len := text.length } = text := by
  rw [StrView.bytes, BitVec.add_sub_cancel]
  exact (cstring.kept good.below imported).1

theorem copy_found (good : ImportGood responses)
    (imported : Imported statics m responses.converted s.mem)
    (cstring : CStringAt statics m responses.converted phys text) (fits : Fits (some text) s) :
    strbufAllocCopy statics (responses.hhdm.getD 0)
      { ptr := phys + responses.hhdm.getD 0, len := text.length } s = stored statics text s :=
  strbufAllocCopy_eq rfl (cstring.bytes good imported) cstring.nonempty (fits text rfl).2

theorem gatherCmdline_eq {cmdline : Option (List (BitVec 8))} (good : ImportGood responses)
    (imported : Imported statics m responses.converted s.mem)
    (describes : Describes view responses.converted)
    (given : Given statics m responses.converted (responses.hhdm.getD 0) responses.cmdline cmdline)
    (fits : Fits cmdline s) :
    gatherCmdline statics responses (responses.hhdm.getD 0) view s =
      storedOption statics cmdline s := by
  have found := given.found good imported describes
  rw [gatherCmdline]
  generalize (responses.cmdline.bind fun ptr =>
    cstrView statics ptr (responses.hhdm.getD 0) view s.mem) = answer at found
  cases found with
  | none => rfl
  | some cstring => exact copy_found good imported cstring fits

theorem join_found {name version : List (BitVec 8)} {phys phys' : Word}
    (good : ImportGood responses) (imported : Imported statics m responses.converted s.mem)
    (first : CStringAt statics m responses.converted phys name)
    (second : CStringAt statics m responses.converted phys' version)
    (fits : Fits (some (name ++ [0x20] ++ version)) s) :
    strbufAllocJoin statics (responses.hhdm.getD 0)
        { ptr := phys + responses.hhdm.getD 0, len := name.length }
        { ptr := phys' + responses.hhdm.getD 0, len := version.length } s =
      stored statics (name ++ [0x20] ++ version) s := by
  have room := (fits _ rfl).2
  rw [List.length_append] at room
  apply strbufAllocJoin_eq rfl rfl (first.bytes good imported) _ first.nonempty second.nonempty
    (fits _ rfl).2
  exact second.bytes good (imported.write (by omega))

theorem gatherBootloader_eq {name version : Option (List (BitVec 8))}
    (good : ImportGood responses) (imported : Imported statics m responses.converted s.mem)
    (describes : Describes view responses.converted)
    (givenName : Given statics m responses.converted (responses.hhdm.getD 0)
      (responses.bootloaderInfo.map Prod.fst) name)
    (givenVersion : Given statics m responses.converted (responses.hhdm.getD 0)
      (responses.bootloaderInfo.map Prod.snd) version)
    (fits : Fits (joined name version) s) :
    gatherBootloader statics responses (responses.hhdm.getD 0) view s =
      storedOption statics (joined name version) s := by
  have foundName := givenName.found good imported describes
  have foundVersion := givenVersion.found good imported describes
  rw [gatherBootloader]
  rcases info : responses.bootloaderInfo with _ | ⟨namePtr, versionPtr⟩
  · rw [info] at foundName foundVersion
    cases foundName
    cases foundVersion
    rfl
  · rw [info, Option.map_some, Option.bind_some] at foundName foundVersion
    dsimp only at foundName foundVersion ⊢
    generalize cstrView statics namePtr (responses.hhdm.getD 0) view s.mem = first at *
    generalize cstrView statics versionPtr (responses.hhdm.getD 0) view s.mem = second at *
    cases foundName with
    | none =>
        cases foundVersion with
        | none => rfl
        | some version => exact copy_found good imported version fits
    | some name =>
        cases foundVersion with
        | none => exact copy_found good imported name fits
        | some version => exact join_found good imported name version fits

/-- A text the bootloader gives has 1 to 1023 bytes. -/
theorem Given.length {pointer : Option Word} {text : Option (List (BitVec 8))}
    (given : Given statics m map hhdmOffset pointer text) :
    ∀ bytes, text = some bytes → 1 ≤ bytes.length ∧ bytes.length ≤ 1023 := by
  rintro bytes rfl
  cases given with
  | pointer _ _ cstring => exact ⟨cstring.nonempty, cstring.short⟩

theorem Given.joined_length {pointer pointer' : Option Word}
    {name version : Option (List (BitVec 8))}
    (givenName : Given statics m map hhdmOffset pointer name)
    (givenVersion : Given statics m map hhdmOffset pointer' version) :
    ∀ bytes, joined name version = some bytes → 1 ≤ bytes.length ∧ bytes.length ≤ 2047 := by
  intro bytes isJoined
  cases name with
  | none =>
      have bounds := givenVersion.length bytes isJoined
      omega
  | some first =>
      have bounds := givenName.length first rfl
      cases version with
      | none =>
          cases isJoined
          omega
      | some second =>
          have bounds' := givenVersion.length second rfl
          cases isJoined
          simp only [List.length_append, List.length_singleton]
          omega

/-- After the command line at most 1023 bytes of the buffer are used. -/
theorem used_cmdline {cmdline : Option (List (BitVec 8))} (empty : s.used = 0)
    (short : ∀ bytes, cmdline = some bytes → 1 ≤ bytes.length ∧ bytes.length ≤ 1023) :
    (storedOption statics cmdline s).2.used ≤ 1023 := by
  cases cmdline with
  | none =>
      change s.used ≤ 1023
      omega
  | some bytes =>
      have bounds := short bytes rfl
      change strbufNext s + bytes.length ≤ 1023
      rw [strbufNext]
      omega

/-- The memory in which the strings are imported. -/
theorem imported_start (responses : LimineResponses) (statics : ImportStatics) (m : Mem) :
    Describes (gatherMemmap statics responses m).1.1 responses.converted ∧
      Imported statics m responses.converted (gatherMemmap statics responses m).2 := by
  rw [LimineResponses.converted, gatherMemmap]
  cases responses.memmap with
  | none => exact ⟨describes_empty, imported_empty statics m⟩
  | some entries => exact imported_convert statics m entries

theorem Names.mono {used used' : Nat} {span : ByteSpan} {text : Option (List (BitVec 8))}
    (names : Names statics used m span text) (more : used ≤ used') :
    Names statics used' m span text := by
  refine ⟨names.absent, ?_⟩
  intro bytes isText
  obtain ⟨length, off, start, inside, reads⟩ := names.present bytes isText
  exact ⟨length, off, start, inside.trans more, reads⟩

theorem used_storedOption {text : Option (List (BitVec 8))} (fits : Fits text s)
    (small : s.used ≤ strbufSize) : (storedOption statics text s).2.used ≤ strbufSize := by
  cases text with
  | none => exact small
  | some bytes => exact (fits bytes rfl).2

section

variable {cmdline name version : Option (List (BitVec 8))}

/-- Both strings fit: the buffer has 4096 bytes, and at most 1024 + 2047 are needed. -/
theorem fits_cmdline (unused : s.used = 0)
    (short : ∀ bytes, cmdline = some bytes → 1 ≤ bytes.length ∧ bytes.length ≤ 1023) :
    Fits cmdline s := by
  intro bytes isText
  have bounds := short bytes isText
  rw [strbufNext, unused, strbufSize]
  omega

theorem fits_bootloader (used : s.used ≤ 1023)
    (short : ∀ bytes, joined name version = some bytes →
      1 ≤ bytes.length ∧ bytes.length ≤ 2047) :
    Fits (joined name version) s := by
  intro bytes isText
  have bounds := short bytes isText
  rw [strbufNext, strbufSize]
  omega

/-- Strings of the bootloader survive their import: the spans name exactly the command
line, and the name and version with one space between them; they lie in the buffer and
do not overlap. -/
theorem bootStrings_imported (good : ImportGood responses) (arch : BootArch)
    (cpuCount : BitVec 32)
    (givenCmdline : Given statics m responses.converted (responses.hhdm.getD 0)
      responses.cmdline cmdline)
    (givenName : Given statics m responses.converted (responses.hhdm.getD 0)
      (responses.bootloaderInfo.map Prod.fst) name)
    (givenVersion : Given statics m responses.converted (responses.hhdm.getD 0)
      (responses.bootloaderInfo.map Prod.snd) version) :
    let gathered := gatherBootinfo statics arch responses cpuCount m
    Names statics strbufSize gathered.2.mem gathered.1.cmdline cmdline ∧
      Names statics strbufSize gathered.2.mem gathered.1.bootloader (joined name version) ∧
      (∀ x, ¬ (gathered.1.cmdline.Covers x ∧ gathered.1.bootloader.Covers x)) ∧
      gathered.2.used ≤ strbufSize := by
  obtain ⟨describes, imported⟩ := imported_start responses statics m
  have supported : ¬ (!responses.revisionValid || !responses.revisionSupported) = true := by
    rw [good.valid, good.supported]
    decide
  simp only [gatherBootinfo, if_neg supported]
  obtain ⟨start, isStart⟩ : ∃ start : ImportState,
      start = { mem := (gatherMemmap statics responses m).2, used := 0 } := ⟨_, rfl⟩
  have importedStart : Imported statics m responses.converted start.mem := isStart ▸ imported
  have unused : start.used = 0 := by rw [isStart]
  have fitsCmdline := fits_cmdline unused givenCmdline.length
  have names := @storedOption_names statics start cmdline fitsCmdline
  have used := @used_cmdline statics start cmdline unused givenCmdline.length
  have importedNext := importedStart.storedOption fitsCmdline
  rw [← isStart, gatherCmdline_eq good importedStart describes givenCmdline fitsCmdline]
  generalize storedOption statics cmdline start = result at *
  have fitsBootloader := fits_bootloader used (givenName.joined_length givenVersion)
  rw [gatherBootloader_eq good importedNext describes givenName givenVersion fitsBootloader]
  have size := @used_storedOption statics _ _ fitsBootloader (used.trans (by decide))
  exact ⟨(names.kept fitsBootloader).mono size,
    (storedOption_names fitsBootloader).mono size, names.apart fitsBootloader, size⟩

end

end

/-! ### A boot with one entry of memory -/

def oneEntryStatics : ImportStatics where
  membuf := { ptr := 0xffffffff80200000, phys := 0x200000 }
  strbuf := { ptr := 0xffffffff80210000, phys := 0x210000 }
  membuf_mapped := by decide
  membuf_aligned := by decide
  membuf_fits := by decide
  strbuf_mapped := by decide
  strbuf_fits := by decide
  apart := by decide

/-- The command line by its physical address, the name by its direct-map address, and
no version. -/
def oneEntryResponses : LimineResponses where
  revisionValid := true
  revisionSupported := true
  firmwareType := some .uefi64
  hhdm := some 0xffff800000000000
  rsdp := none
  memmap := some [{ base := 0x1000, length := 0x1000, entryType := .bootloaderReclaimable }]
  cmdline := some 0x1000
  bootloaderInfo := some (0xffff800000001010, 0)

def oneEntryMem : Mem :=
  writeBytes (writeBytes (fun _ => 0) 0x1000 [0x68, 0x69]) 0x1010 [0x4c]

theorem oneEntry_free {a : Nat} (low : a < 0x200000) : ¬ oneEntryStatics.Owns a := by
  have membuf : oneEntryStatics.membuf.phys.toNat = 0x200000 := rfl
  have strbuf : oneEntryStatics.strbuf.phys.toNat = 0x210000 := rfl
  rw [ImportStatics.Owns, membuf, strbuf]
  omega

theorem oneEntry_good : ImportGood oneEntryResponses where
  valid := rfl
  supported := rfl
  hhdm_high := by decide
  hhdm_reaches := by decide
  below := by decide
  disjoint := List.pairwise_singleton _ _

theorem oneEntry_cmdline :
    CStringAt oneEntryStatics oneEntryMem oneEntryResponses.converted 0x1000 [0x68, 0x69] where
  nonempty := by decide
  short := by decide
  nonzero := by decide
  stored := by decide +kernel
  terminated := by decide +kernel
  inside := ⟨_, List.mem_cons_self, by unfold MemMapEntry.Covers; decide,
    by unfold MemMapEntry.Covers; decide⟩
  outside := by
    intro i small
    apply oneEntry_free
    have start : (0x1000 : Word).toNat = 0x1000 := rfl
    rw [List.length_cons, List.length_singleton] at small
    omega

theorem oneEntry_name :
    CStringAt oneEntryStatics oneEntryMem oneEntryResponses.converted 0x1010 [0x4c] where
  nonempty := by decide
  short := by decide
  nonzero := by decide
  stored := by decide +kernel
  terminated := by decide +kernel
  inside := ⟨_, List.mem_cons_self, by unfold MemMapEntry.Covers; decide,
    by unfold MemMapEntry.Covers; decide⟩
  outside := by
    intro i small
    apply oneEntry_free
    have start : (0x1010 : Word).toNat = 0x1010 := rfl
    rw [List.length_singleton] at small
    omega

theorem bootStrings_oneEntry :
    let gathered := gatherBootinfo oneEntryStatics .x86_64 oneEntryResponses 1 oneEntryMem
    Names oneEntryStatics strbufSize gathered.2.mem gathered.1.cmdline (some [0x68, 0x69]) ∧
      Names oneEntryStatics strbufSize gathered.2.mem gathered.1.bootloader
        (joined (some [0x4c]) none) ∧
      (∀ x, ¬ (gathered.1.cmdline.Covers x ∧ gathered.1.bootloader.Covers x)) ∧
      gathered.2.used ≤ strbufSize := by
  have hhdm : oneEntryResponses.hhdm.getD 0 = 0xffff800000000000 := rfl
  apply bootStrings_imported oneEntry_good .x86_64 1
  · exact .pointer (by decide) (.inl rfl) oneEntry_cmdline
  · rw [hhdm]
    exact .pointer (by decide) (.inr (by decide)) oneEntry_name
  · exact .null

end RincOs
