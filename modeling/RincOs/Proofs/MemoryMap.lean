/-
Module: RincOs.Proofs.MemoryMap
Purpose: From the Limine memory map to frames: the converted map stays readable
  while frames are handed out, and the allocator over it serves exactly the free
  pages, in order, each to one client at a time and zeroed.
Trusted boundary: none
Main exports:
  LimineBoot, InMapOrder, FrameClient, ServesPages, limine_serves_pages
-/
import RincOs.Library.TableFill
import RincOs.Boot.Limine
import RincOs.Proofs.FrameOwnership
import RincOs.Proofs.KernelTables

namespace RincOs

/-! ### The buffer -/

namespace Membuf

variable {membuf : Membuf} {m m' : Mem}

theorem word_eq_iff {n k : Nat} (one : n < 3 * maxMemmap) (two : k < 3 * maxMemmap) :
    membuf.word n = membuf.word k ↔ n = k := by
  refine ⟨fun same => ?_, fun same => by rw [same]⟩
  have values := congrArg BitVec.toNat ((BitVec.add_right_inj membuf.phys).mp same)
  rw [BitVec.toNat_ofNat, BitVec.toNat_ofNat] at values
  rw [maxMemmap] at one two
  omega

/-- Elements depend on the words of the buffer only. -/
theorem entry_congr {i : Nat} (inside : i < maxMemmap)
    (same : ∀ n < 3 * maxMemmap, m' (membuf.word n) = m (membuf.word n)) :
    membuf.entry m' i = membuf.entry m i := by
  rw [entry, entry, same _ (by omega), same _ (by omega), same _ (by omega)]

theorem store_word {i n : Nat} (one : i < maxMemmap) (two : n < 3 * maxMemmap)
    (element : MemMapEntry) :
    membuf.store m i element (membuf.word n) =
      if n = 3 * i + 2 then element.tail
      else if n = 3 * i + 1 then element.len
      else if n = 3 * i then element.base
      else m (membuf.word n) := by
  have last : 3 * i + 2 < 3 * maxMemmap := by omega
  simp only [store, Function.update_apply, word_eq_iff two last,
    word_eq_iff two (Nat.lt_of_succ_lt last), word_eq_iff two (by omega : 3 * i < 3 * maxMemmap)]

theorem entry_store {i j : Nat} (one : i < maxMemmap) (two : j < maxMemmap)
    (element : MemMapEntry) :
    membuf.entry (membuf.store m i element) j = if j = i then element else membuf.entry m j := by
  rw [entry, store_word one (by omega), store_word one (by omega), store_word one (by omega)]
  by_cases here : j = i
  · subst here
    simp [MemMapEntry.ofWords_tail]
  · rw [if_neg here, entry]
    repeat rw [if_neg (by omega)]

/-- After the conversion the buffer holds the converted entries. -/
theorem entry_fill {entries : List LimineEntry} {i j : Nat} (room : i + entries.length ≤ maxMemmap)
    (inside : j < maxMemmap) :
    membuf.entry (membuf.fill i entries m) j =
      if i ≤ j then (entries[j - i]?.map convertEntry).getD (membuf.entry m j)
      else membuf.entry m j :=
  @TableFill.read_fill _ _ _ membuf.fill (fun m i entry => membuf.store m i (convertEntry entry))
    membuf.entry convertEntry maxMemmap (fun _ _ => rfl) (fun _ _ _ _ => rfl)
    (fun _ _ _ _ one two => entry_store one two _) entries i j room inside m

end Membuf

/-! ### Reading the map through the buffer -/

/-- The cursor reads the entries of the map, no others. -/
theorem nextFromMapLoop_congr {view view' : Nat → MemMapEntry} {rounds : Nat}
    {self : BootPtAlloc} (same : ∀ i < self.entryCount, view' i = view i) :
    self.nextFromMapLoop view' rounds = self.nextFromMapLoop view rounds := by
  induction rounds generalizing self with
  | zero => rfl
  | succ rounds inductionHypothesis =>
      have round : self.mapRound view' = self.mapRound view := by
        have entry : self.entryAt view' self.curEntry = self.entryAt view self.curEntry := by
          rw [BootPtAlloc.entryAt, BootPtAlloc.entryAt]
          split
          · rfl
          · rename_i inside
            rw [same _ (Nat.lt_of_not_le inside)]
        rw [BootPtAlloc.mapRound, entry, BootPtAlloc.mapRound]
      rw [BootPtAlloc.nextFromMapLoop, round, BootPtAlloc.nextFromMapLoop]
      cases self.mapRound view with
      | stop | take => rfl
      | skip => exact inductionHypothesis same

theorem allocFrame4k_congr {view view' : Nat → MemMapEntry} {self : BootPtAlloc} {m : Mem}
    (same : ∀ i < self.entryCount, view' i = view i) :
    self.allocFrame4k view' m = self.allocFrame4k view m := by
  have next : self.nextFromMap view' = self.nextFromMap view := nextFromMapLoop_congr same
  rw [BootPtAlloc.allocFrame4k, BootPtAlloc.takeFrame, next]
  rfl

/-! ### What the bootloader guarantees -/

/-- Free memory, in the words of the Limine protocol. -/
def LimineEntry.isFree (entry : LimineEntry) : Bool :=
  entry.entryType = .usable ∨ entry.entryType = .bootloaderReclaimable

theorem isUsable_convertEntry (entry : LimineEntry) :
    isUsable (convertEntry entry).memType = entry.isFree := by
  obtain ⟨base, length, entryType⟩ := entry
  cases entryType <;> rfl

/-- Address `x` belongs to the entry. -/
def LimineEntry.Covers (entry : LimineEntry) (x : Nat) : Prop :=
  entry.base.toNat ≤ x ∧ x < entry.base.toNat + entry.length.toNat

/-- The 4 KiB page at `f` lies in the entry as a whole. -/
def LimineEntry.PageIn (entry : LimineEntry) (f : PhysAddr) : Prop :=
  f.toNat % 4096 = 0 ∧ entry.base.toNat ≤ f.toNat ∧
    f.toNat + 4096 ≤ entry.base.toNat + entry.length.toNat

/-- A memory map as Limine passes it to a kernel whose image, at the physical
addresses from `imageStart` up to `imageEnd`, holds the buffer. -/
structure LimineBoot (membuf : Membuf) (entries : List LimineEntry)
    (imageStart imageEnd : Nat) : Prop where
  nonempty : entries ≠ []
  fits : entries.length ≤ maxMemmap
  below : ∀ entry ∈ entries, entry.isFree = true →
    entry.base.toNat + entry.length.toNat < 2 ^ 52
  disjoint : ∀ {i j x : Nat} {one two : LimineEntry}, entries[i]? = some one →
    entries[j]? = some two → one.isFree = true → two.isFree = true → one.Covers x →
      two.Covers x → i = j
  ptr : membuf.ptr ≠ 0
  bufferStart : imageStart ≤ membuf.phys.toNat
  bufferEnd : membuf.phys.toNat + maxMemmap * memMapEntrySize ≤ imageEnd
  imageBelow : imageEnd ≤ 2 ^ 64
  imageApart : ∀ entry ∈ entries, entry.isFree = true → ∀ x, imageStart ≤ x → x < imageEnd →
    ¬ entry.Covers x

/-- The pages in entry order and ascending within an entry: one block for each
entry, empty if the entry is not free. -/
structure InMapOrder (entries : List LimineEntry) (pages : List PhysAddr) : Prop where
  exact : ∀ f, f ∈ pages ↔ ∃ entry ∈ entries, entry.isFree = true ∧ entry.PageIn f
  once : pages.Nodup
  ordered : ∃ blocks : List (List PhysAddr), pages = blocks.flatten ∧
    List.Forall₂ (fun entry block =>
      (∀ f, f ∈ block ↔ entry.isFree = true ∧ entry.PageIn f) ∧
        block.Pairwise fun f g => f.toNat < g.toNat) entries blocks

/-- The pages one entry contributes, from its base on. -/
theorem mem_pagesIn_convertEntry {entry : LimineEntry} {f : PhysAddr}
    (bound : entry.isFree = true → entry.base.toNat + entry.length.toNat < 2 ^ 52) :
    f ∈ pagesIn (convertEntry entry) 0 ↔ entry.isFree = true ∧ entry.PageIn f := by
  rw [mem_pagesIn, isUsable_convertEntry]
  refine and_congr_right fun free => ?_
  have limit := bound free
  constructor
  · rintro ⟨n, listed, rfl⟩
    obtain ⟨-, low, high⟩ := mem_pageNumbers.mp listed
    change entry.base.toNat ≤ 4096 * n at low
    change 4096 * (n + 1) ≤ entry.base.toNat + entry.length.toNat at high
    rw [LimineEntry.PageIn, toNat_pageFrame (by omega)]
    omega
  · rintro ⟨aligned, low, high⟩
    refine ⟨f.toNat / 4096, mem_pageNumbers.mpr ⟨Nat.zero_le _, ?_, ?_⟩, ?_⟩
    · change entry.base.toNat ≤ _
      omega
    · change _ ≤ entry.base.toNat + entry.length.toNat
      omega
    · apply BitVec.eq_of_toNat_eq
      rw [toNat_pageFrame (by omega)]
      omega

theorem pagesIn_ascending {entry : LimineEntry}
    (bound : entry.isFree = true → entry.base.toNat + entry.length.toNat < 2 ^ 52) :
    (pagesIn (convertEntry entry) 0).Pairwise fun f g => f.toNat < g.toNat := by
  rw [pagesIn, isUsable_convertEntry]
  split
  · rename_i free
    have limit := bound free
    have value : ∀ {n}, n ∈ pageNumbers (convertEntry entry) 0 →
        (pageFrame n).toNat = 4096 * n := by
      intro n listed
      obtain ⟨-, -, high⟩ := mem_pageNumbers.mp listed
      change _ ≤ entry.base.toNat + entry.length.toNat at high
      exact toNat_pageFrame (by omega)
    rw [List.pairwise_map]
    refine List.Pairwise.imp_of_mem (fun one two order => ?_)
      (List.pairwise_lt_range' (s := _) (n := _))
    rw [value one, value two]
    omega
  · exact List.Pairwise.nil

theorem pagesFrom_flatten (view : Nat → MemMapEntry) (rounds cur : Nat) :
    pagesFrom view rounds cur 0 =
      ((List.range' cur rounds).map fun i => pagesIn (view i) 0).flatten := by
  induction rounds generalizing cur with
  | zero => rfl
  | succ rounds inductionHypothesis =>
      rw [pagesFrom, inductionHypothesis, List.range'_succ, List.map_cons, List.flatten_cons]

/-- The converted entries as the allocator indexes them. -/
def convertedView (entries : List LimineEntry) (i : Nat) : MemMapEntry :=
  (entries[i]?.map convertEntry).getD default

theorem convertedView_eq {entries : List LimineEntry} {i : Nat} {entry : LimineEntry}
    (found : entries[i]? = some entry) : convertedView entries i = convertEntry entry := by
  rw [convertedView, found, Option.map_some, Option.getD_some]

namespace LimineBoot

variable {membuf : Membuf} {entries : List LimineEntry} {imageStart imageEnd : Nat}

/-- The converted map. -/
def map (good : LimineBoot membuf entries imageStart imageEnd) : BootMap where
  view := convertedView entries
  count := entries.length
  below i inside usable := by
    have found := List.getElem?_eq_getElem inside
    rw [convertedView_eq found, isUsable_convertEntry] at usable
    rw [convertedView_eq found]
    exact (good.below _ (List.getElem_mem inside) usable).le
  disjoint {i j x} one two usable usable' first second := by
    have found := List.getElem?_eq_getElem one
    have found' := List.getElem?_eq_getElem two
    rw [convertedView_eq found] at usable first
    rw [convertedView_eq found'] at usable' second
    rw [isUsable_convertEntry] at usable usable'
    exact good.disjoint found found' usable usable' first second

theorem pages_inMapOrder (good : LimineBoot membuf entries imageStart imageEnd) :
    InMapOrder entries good.map.pages := by
  have views : (List.range' 0 entries.length).map (fun i => pagesIn (convertedView entries i) 0) =
      entries.map fun entry => pagesIn (convertEntry entry) 0 := by
    apply List.ext_getElem (by simp)
    intro i _ inside
    have found := List.getElem?_eq_getElem (by simpa using inside : i < entries.length)
    simp [convertedView_eq found]
  have blocks : good.map.pages =
      (entries.map fun entry => pagesIn (convertEntry entry) 0).flatten := by
    rw [← views]
    exact pagesFrom_flatten _ _ _
  refine ⟨fun f => ?_, BootMap.pages_nodup, _, blocks, ?_⟩
  · rw [blocks, ← List.flatMap_def, List.mem_flatMap]
    exact exists_congr fun entry => and_congr_right fun inside =>
      mem_pagesIn_convertEntry (good.below entry inside)
  · rw [List.forall₂_map_right_iff, List.forall₂_same]
    exact fun entry inside => ⟨fun f => mem_pagesIn_convertEntry (good.below entry inside),
      pagesIn_ascending (good.below entry inside)⟩

/-- No free page overlaps the buffer. -/
theorem buffer_apart (good : LimineBoot membuf entries imageStart imageEnd) {f : PhysAddr}
    (page : f ∈ good.map.pages) {n : Nat} (inside : n < 3 * maxMemmap) :
    ¬ InFrame f (membuf.word n) := by
  obtain ⟨entry, listed, free, aligned, low, high⟩ := (good.pages_inMapOrder.exact f).mp page
  have start := good.bufferStart
  have finish := good.bufferEnd
  have below := good.imageBelow
  rw [maxMemmap] at inside
  rw [maxMemmap, memMapEntrySize] at finish
  have value : (membuf.word n).toNat = membuf.phys.toNat + 8 * n := by
    rw [Membuf.word, BitVec.toNat_add, BitVec.toNat_ofNat]
    omega
  rw [inFrame_iff (BootMap.isFrame_of_mem page), value]
  intro shared
  exact good.imageApart entry listed free (membuf.phys.toNat + 8 * n) (by omega) (by omega)
    ⟨by omega, by omega⟩

/-- The conversion of a map that fits. -/
theorem converted_eq (good : LimineBoot membuf entries imageStart imageEnd) (m : Mem) :
    convertMemmapEntries membuf entries m =
      (({ entriesPtr := membuf.ptr
          entryCount := BitVec.ofNat 32 entries.length
          entrySize := BitVec.ofNat 16 memMapEntrySize
          flags := 0 }, 0), membuf.fill 0 entries m) := by
  have nonempty : entries.isEmpty = false := by simpa using good.nonempty
  rw [convertMemmapEntries, nonempty]
  simp only [Bool.false_eq_true, if_false, Nat.min_eq_left good.fits, gt_iff_lt, lt_irrefl,
    List.take_length]
  rfl

/-- The conversion leaves the map in the buffer. -/
theorem entry_converted (good : LimineBoot membuf entries imageStart imageEnd) (m : Mem)
    {i : Nat} (inside : i < entries.length) :
    membuf.entry (convertMemmapEntries membuf entries m).2 i = good.map.view i := by
  have found := List.getElem?_eq_getElem inside
  have fits := good.fits
  rw [good.converted_eq, Membuf.entry_fill (by omega) (by omega), if_pos (Nat.zero_le i),
    Nat.sub_zero, found]
  exact (convertedView_eq found).symm

/-- The allocator can be built on the converted map. -/
theorem new_converted (good : LimineBoot membuf entries imageStart imageEnd) {hhdm : Word}
    (offset : hhdm ≠ 0) (m : Mem) :
    ∃ alloc, BootPtAlloc.new ⟨hhdm, (convertMemmapEntries membuf entries m).1.1⟩ = some alloc ∧
      BootValid good.map alloc ∧ alloc.freeList = [] ∧
      alloc.remaining good.map.view = good.map.pages := by
  have fits := good.fits
  have count : (BitVec.ofNat 32 entries.length).toNat = good.map.count := by
    rw [BitVec.toNat_ofNat]
    rw [maxMemmap] at fits
    exact Nat.mod_eq_of_lt (by omega)
  have several : BitVec.ofNat 32 entries.length ≠ 0 := by
    intro zero
    rw [zero] at count
    exact good.nonempty (List.length_eq_zero_iff.mp count.symm)
  obtain ⟨alloc, created⟩ : ∃ alloc,
      BootPtAlloc.new ⟨hhdm, (convertMemmapEntries membuf entries m).1.1⟩ = some alloc := by
    rw [good.converted_eq, BootPtAlloc.new, if_neg (by simpa using offset),
      if_neg (by simpa using ⟨good.ptr, several⟩), if_neg (by simp [memMapEntrySize])]
    exact ⟨_, rfl⟩
  have entryCount : (convertMemmapEntries membuf entries m).1.1.entryCount.toNat =
      good.map.count := by
    rw [good.converted_eq]
    exact count
  obtain ⟨-, -, empty, all⟩ := bootPtAlloc_new created entryCount
  exact ⟨alloc, created, bootValid_new created entryCount, empty, all⟩

end LimineBoot

/-! ### Clients -/

/-- Calls of `alloc_frame_4k` and `free_frame_4k` in any order on the allocator
that reads its map from the buffer.  The client frees only frames it holds, listed
in `held`, and writes anywhere but to the buffer. -/
inductive FrameClient (membuf : Membuf) (alloc₀ : BootPtAlloc) (m₀ : Mem) :
    List PhysAddr → BootPtAlloc → Mem → Prop where
  | start : FrameClient membuf alloc₀ m₀ [] alloc₀ m₀
  | alloc {held : List PhysAddr} {alloc after : BootPtAlloc} {m m' : Mem} {f : PhysAddr}
      (before : FrameClient membuf alloc₀ m₀ held alloc m)
      (done : alloc.allocFrame4k (membuf.entry m) m = (some f, after, m')) :
      FrameClient membuf alloc₀ m₀ (f :: held) after m'
  | refused {held : List PhysAddr} {alloc after : BootPtAlloc} {m m' : Mem}
      (before : FrameClient membuf alloc₀ m₀ held alloc m)
      (done : alloc.allocFrame4k (membuf.entry m) m = (none, after, m')) :
      FrameClient membuf alloc₀ m₀ held after m'
  | free {held : List PhysAddr} {alloc : BootPtAlloc} {m : Mem} {f : PhysAddr}
      (before : FrameClient membuf alloc₀ m₀ held alloc m) (known : f ∈ held) :
      FrameClient membuf alloc₀ m₀ (held.erase f) (alloc.freeFrame4k f) m
  | write {held : List PhysAddr} {alloc : BootPtAlloc} {m : Mem} {x w : Word}
      (before : FrameClient membuf alloc₀ m₀ held alloc m)
      (outside : ∀ n < 3 * maxMemmap, x ≠ membuf.word n) :
      FrameClient membuf alloc₀ m₀ held alloc (Function.update m x w)

/-- The answer of the last of `n + 1` successive calls of `alloc_frame_4k`. -/
def nthAnswer (membuf : Membuf) : Nat → BootPtAlloc → Mem → Option PhysAddr
  | 0, alloc, m => (alloc.allocFrame4k (membuf.entry m) m).1
  | n + 1, alloc, m =>
      let (_, after, m') := alloc.allocFrame4k (membuf.entry m) m
      nthAnswer membuf n after m'

/-- The allocator serves exactly the given pages: successive calls return them in
order and then nothing, and whatever a client does in between, a frame it is given
is one of them, not one it holds already, and filled with zeros. -/
structure ServesPages (membuf : Membuf) (alloc₀ : BootPtAlloc) (m₀ : Mem)
    (pages : List PhysAddr) : Prop where
  successive : ∀ n, nthAnswer membuf n alloc₀ m₀ = pages[n]?
  interleaved : ∀ held alloc m f after m', FrameClient membuf alloc₀ m₀ held alloc m →
    alloc.allocFrame4k (membuf.entry m) m = (some f, after, m') →
      f ∈ pages ∧ f ∉ held ∧ ∀ x, InFrame f x → m' x = 0

namespace LimineBoot

variable {membuf : Membuf} {entries : List LimineEntry} {imageStart imageEnd : Nat}
variable {held : List PhysAddr} {alloc after : BootPtAlloc} {m m' : Mem}

/-- What holds between the calls of a client. -/
structure Serving (good : LimineBoot membuf entries imageStart imageEnd)
    (held : List PhysAddr) (alloc : BootPtAlloc) (m : Mem) : Prop where
  valid : BootValid good.map alloc
  nodup : held.Nodup
  heldPages : ∀ f ∈ held, BootHeld good.map alloc f
  buffer : ∀ i < good.map.count, membuf.entry m i = good.map.view i

variable {good : LimineBoot membuf entries imageStart imageEnd}

namespace Serving

/-- The allocator reads the converted map, whatever frames were written. -/
theorem takes {frame : Option PhysAddr} (serving : Serving good held alloc m)
    (done : alloc.allocFrame4k (membuf.entry m) m = (frame, after, m')) :
    alloc.takeFrame good.map.view = (frame, after) ∧ m' = frame.elim m (zeroFrame m) := by
  rw [allocFrame4k_congr (serving.valid.count ▸ serving.buffer)] at done
  exact allocFrame4k_eq done

theorem keepsBuffer (serving : Serving good held alloc m)
    (same : ∀ n < 3 * maxMemmap, m' (membuf.word n) = m (membuf.word n)) :
    ∀ i < good.map.count, membuf.entry m' i = good.map.view i := by
  intro i inside
  have fits : i < maxMemmap := lt_of_lt_of_le inside good.fits
  rw [Membuf.entry_congr fits same, serving.buffer i inside]

theorem alloc_some (serving : Serving good held alloc m) {f : PhysAddr}
    (done : alloc.allocFrame4k (membuf.entry m) m = (some f, after, m')) :
    Serving good (f :: held) after m' ∧ f ∈ good.map.pages ∧ f ∉ held ∧
      ∀ x, InFrame f x → m' x = 0 := by
  obtain ⟨taken, rfl⟩ := serving.takes done
  obtain ⟨valid, page, free, heldIff⟩ := serving.valid.takeFrame_some taken
  have fresh : f ∉ held := fun known => free (serving.heldPages f known)
  refine ⟨⟨valid, List.nodup_cons.mpr ⟨fresh, serving.nodup⟩, fun g known => ?_,
    serving.keepsBuffer fun n inside => if_neg (good.buffer_apart page inside)⟩, page, fresh,
    fun x inside => if_pos inside⟩
  rcases List.mem_cons.mp known with rfl | old
  · exact (heldIff g).mpr (Or.inr rfl)
  · exact (heldIff g).mpr (Or.inl (serving.heldPages g old))

theorem alloc_none (serving : Serving good held alloc m)
    (done : alloc.allocFrame4k (membuf.entry m) m = (none, after, m')) :
    Serving good held after m' ∧ alloc.remaining good.map.view = [] ∧
      after.remaining good.map.view = [] := by
  obtain ⟨taken, rfl⟩ := serving.takes done
  obtain ⟨valid, heldIff, before, later⟩ := serving.valid.takeFrame_none taken
  exact ⟨⟨valid, serving.nodup, fun g known => (heldIff g).mpr (serving.heldPages g known),
    serving.buffer⟩, before, later⟩

theorem free (serving : Serving good held alloc m) {f : PhysAddr} (known : f ∈ held) :
    Serving good (held.erase f) (alloc.freeFrame4k f) m := by
  obtain ⟨valid, others, -⟩ := serving.valid.freeFrame4k (serving.heldPages f known)
  refine ⟨valid, serving.nodup.erase f, fun g still => ?_, serving.buffer⟩
  obtain ⟨other, old⟩ := (serving.nodup.mem_erase_iff).mp still
  exact others g other (serving.heldPages g old)

theorem write (serving : Serving good held alloc m) {x w : Word}
    (outside : ∀ n < 3 * maxMemmap, x ≠ membuf.word n) :
    Serving good held alloc (Function.update m x w) :=
  ⟨serving.valid, serving.nodup, serving.heldPages, serving.keepsBuffer fun n inside =>
    Function.update_of_ne (outside n inside).symm _ _⟩

theorem of_client {alloc₀ : BootPtAlloc} {m₀ : Mem} (initial : Serving good [] alloc₀ m₀)
    (client : FrameClient membuf alloc₀ m₀ held alloc m) : Serving good held alloc m := by
  induction client with
  | start => exact initial
  | alloc _ done inductionHypothesis => exact (inductionHypothesis.alloc_some done).1
  | refused _ done inductionHypothesis => exact (inductionHypothesis.alloc_none done).1
  | free _ known inductionHypothesis => exact inductionHypothesis.free known
  | write _ outside inductionHypothesis => exact inductionHypothesis.write outside

/-- With nothing to reuse, a call takes the next page of the map. -/
theorem alloc_next {frame : Option PhysAddr} (serving : Serving good held alloc m)
    (empty : alloc.freeList = [])
    (done : alloc.allocFrame4k (membuf.entry m) m = (frame, after, m')) :
    frame = (alloc.remaining good.map.view).head? ∧ after.freeList = [] ∧
      after.remaining good.map.view = (alloc.remaining good.map.view).tail ∧
      ∃ held', Serving good held' after m' := by
  have serving' : ∃ held', Serving good held' after m' := by
    cases frame with
    | none => exact ⟨_, (serving.alloc_none done).1⟩
    | some f => exact ⟨_, (serving.alloc_some done).1⟩
  have taken := (serving.takes done).1
  rcases takeFrame_cases good.map.view alloc with ⟨top, rest, -, free, -⟩ | ⟨-, next⟩
  · rw [empty] at free
    cases free
  · obtain ⟨same, -, head, rest⟩ := serving.valid.nextFromMap
    rw [← next, taken] at same head rest
    refine ⟨head, ?_, rest, serving'⟩
    dsimp only at same
    rw [same, ← empty]

/-- Without frees, successive calls return the pages left one after the other. -/
theorem nthAnswer_eq (serving : Serving good held alloc m) (empty : alloc.freeList = [])
    (n : Nat) : nthAnswer membuf n alloc m = (alloc.remaining good.map.view)[n]? := by
  induction n generalizing held alloc m with
  | zero =>
      rcases done : alloc.allocFrame4k (membuf.entry m) m with ⟨frame, after, m'⟩
      rw [nthAnswer, done, (serving.alloc_next empty done).1, List.head?_eq_getElem?]
  | succ n inductionHypothesis =>
      rcases done : alloc.allocFrame4k (membuf.entry m) m with ⟨frame, after, m'⟩
      obtain ⟨-, empty', rest, held', serving'⟩ := serving.alloc_next empty done
      rw [nthAnswer, done]
      dsimp only
      rw [inductionHypothesis serving' empty', rest, List.getElem?_tail]

end Serving

end LimineBoot

/-- The allocator built on a converted Limine map serves exactly its free pages. -/
theorem limine_serves_pages {membuf : Membuf} {entries : List LimineEntry}
    {imageStart imageEnd : Nat} (good : LimineBoot membuf entries imageStart imageEnd)
    {hhdm : Word} (offset : hhdm ≠ 0) (m : Mem) :
    let converted := convertMemmapEntries membuf entries m
    ∃ alloc pages, BootPtAlloc.new ⟨hhdm, converted.1.1⟩ = some alloc ∧
      InMapOrder entries pages ∧ ServesPages membuf alloc converted.2 pages := by
  intro converted
  obtain ⟨alloc, created, valid, empty, all⟩ := good.new_converted offset m
  have initial : good.Serving [] alloc converted.2 :=
    ⟨valid, List.nodup_nil, by simp, fun i inside => good.entry_converted m inside⟩
  refine ⟨alloc, good.map.pages, created, good.pages_inMapOrder, fun n => ?_, ?_⟩
  · rw [initial.nthAnswer_eq empty, all]
  · intro held alloc' m₁ f after m' client done
    exact ((initial.of_client client).alloc_some done).2

/-! ### A small map -/

/-- The buffer at 2 MiB, in an image mapped at the top of the address space. -/
def smallMembuf : Membuf where
  ptr := 0xffffffff80000000
  phys := 0x200000

/-- An entry with unaligned ends, the kernel image, an empty entry, and one page
of bootloader memory. -/
def smallEntries : List LimineEntry :=
  [⟨0x1800, 0x3000, .usable⟩, ⟨0x200000, 0x10000, .executableAndModules⟩,
    ⟨0x8000, 0, .usable⟩, ⟨0x8000, 0x1000, .bootloaderReclaimable⟩]

theorem limineBoot_smallEntries : LimineBoot smallMembuf smallEntries 0x200000 0x210000 where
  nonempty := by decide
  fits := by decide
  below := by decide
  disjoint {i j x one two} found found' free free' inside inside' := by
    rcases i with _ | _ | _ | _ | i <;> rcases j with _ | _ | _ | _ | j <;>
      simp only [smallEntries, List.getElem?_cons_zero, List.getElem?_cons_succ,
        List.getElem?_nil, Option.some.injEq, reduceCtorEq] at found found' <;>
      subst found found' <;>
      simp [LimineEntry.Covers, LimineEntry.isFree] at free free' inside inside' ⊢ <;> omega
  ptr := by decide
  bufferStart := by decide
  bufferEnd := by decide
  imageBelow := by decide
  imageApart entry listed free x low high := by
    simp only [smallEntries, List.mem_cons, List.not_mem_nil, or_false] at listed
    rcases listed with rfl | rfl | rfl | rfl <;>
      simp [LimineEntry.Covers, LimineEntry.isFree] at free ⊢ <;> omega

/-- Three pages are served from this map. -/
theorem smallEntries_served :
    ∃ alloc pages,
      BootPtAlloc.new ⟨0xffff800000000000,
          (convertMemmapEntries smallMembuf smallEntries fun _ => 0).1.1⟩ = some alloc ∧
        InMapOrder smallEntries pages ∧
        ServesPages smallMembuf alloc
          (convertMemmapEntries smallMembuf smallEntries fun _ => 0).2 pages :=
  limine_serves_pages limineBoot_smallEntries (by decide) _

example : limineBoot_smallEntries.map.pages = [0x2000, 0x3000, 0x8000] := by decide

end RincOs
