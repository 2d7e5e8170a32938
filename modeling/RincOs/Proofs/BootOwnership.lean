/-
Module: RincOs.Proofs.BootOwnership
Purpose: The boot allocator over a memory map with disjoint usable entries is a
  lawful frame allocator: a page of the map is on the free list, still ahead of
  the cursor, or held by a client, and never two of these.
Trusted boundary: the memory map is not overwritten while the allocator runs
Main exports:
  MemMapEntry.Covers, BootMap, WholePage, BootMap.pages, BootMap.mem_pages,
  BootMap.pages_nodup, BootValid, BootAllocOver, bootAlloc_lawful
-/
import RincOs.Proofs.BootPages
import Mathlib.Data.List.Nodup
import Mathlib.Data.List.Infix

namespace RincOs

/-! ### Memory maps -/

/-- Address `x` belongs to the entry. -/
def MemMapEntry.Covers (entry : MemMapEntry) (x : Nat) : Prop :=
  entry.base.toNat ≤ x ∧ x < entry.base.toNat + entry.len.toNat

/-- A memory map whose usable entries are disjoint and end at `2 ^ 52` or below. -/
structure BootMap where
  view : Nat → MemMapEntry
  count : Nat
  below : UsableUpTo (2 ^ 52) view count
  disjoint : ∀ {i j x}, i < count → j < count →
    isUsable (view i).memType = true → isUsable (view j).memType = true →
    (view i).Covers x → (view j).Covers x → i = j

/-- A map of one entry. -/
def BootMap.single (entry : MemMapEntry)
    (below : entry.base.toNat + entry.len.toNat ≤ 2 ^ 52) : BootMap where
  view _ := entry
  count := 1
  below _ _ _ := below
  disjoint one two _ _ _ _ := by omega

theorem mem_pageNumbers {entry : MemMapEntry} {start n : Nat} :
    n ∈ pageNumbers entry start ↔
      start ≤ 4096 * n ∧ entry.base.toNat ≤ 4096 * n ∧
        4096 * (n + 1) ≤ entry.base.toNat + entry.len.toNat := by
  simp only [pageNumbers, List.mem_range'_1]
  omega

theorem toNat_pageFrame {n : Nat} (bound : 4096 * (n + 1) ≤ 2 ^ 52) :
    (pageFrame n).toNat = 4096 * n := by
  rw [pageFrame, BitVec.toNat_ofNat]
  omega

theorem mem_pagesIn {entry : MemMapEntry} {start : Nat} {f : PhysAddr} :
    f ∈ pagesIn entry start ↔
      isUsable entry.memType = true ∧ ∃ n ∈ pageNumbers entry start, pageFrame n = f := by
  rw [pagesIn]
  split
  · rename_i usable
    rw [List.mem_map, and_iff_right usable]
  · rename_i unusable
    simp [unusable]

theorem mem_pagesFrom {view : Nat → MemMapEntry} {rounds cur : Nat} {f : PhysAddr} :
    f ∈ pagesFrom view rounds cur 0 ↔
      ∃ i, cur ≤ i ∧ i < cur + rounds ∧ f ∈ pagesIn (view i) 0 := by
  induction rounds generalizing cur with
  | zero =>
      simp only [pagesFrom, List.not_mem_nil, false_iff]
      rintro ⟨i, low, high, -⟩
      omega
  | succ rounds inductionHypothesis =>
      rw [pagesFrom, List.mem_append, inductionHypothesis]
      constructor
      · rintro (here | ⟨i, low, high, inside⟩)
        · exact ⟨cur, le_rfl, by omega, here⟩
        · exact ⟨i, by omega, by omega, inside⟩
      · rintro ⟨i, low, high, inside⟩
        rcases Nat.eq_or_lt_of_le low with rfl | later
        · exact Or.inl inside
        · exact Or.inr ⟨i, later, by omega, inside⟩

/-- The 4 KiB from `t` on lie in a usable or bootloader-reclaimable entry as a whole. -/
def InFreeEntry (view : Nat → MemMapEntry) (count : Nat) (t : PhysAddr) : Prop :=
  ∃ i < count, isUsable (view i).memType = true ∧ (view i).base.toNat ≤ t.toNat ∧
    t.toNat + 4096 ≤ (view i).base.toNat + (view i).len.toNat

/-- The frame at `f` lies in one of the usable entries as a whole. -/
def WholePage (view : Nat → MemMapEntry) (count : Nat) (f : PhysAddr) : Prop :=
  f.toNat % 4096 = 0 ∧ InFreeEntry view count f

/-- The cursor of a new allocator has all whole pages ahead. -/
theorem mem_pagesFrom_of_wholePage {view : Nat → MemMapEntry} {count : Nat} {f : PhysAddr}
    (whole : WholePage view count f) : f ∈ pagesFrom view count 0 0 := by
  obtain ⟨aligned, i, inMap, usable, low, high⟩ := whole
  refine mem_pagesFrom.mpr ⟨i, Nat.zero_le i, by omega, mem_pagesIn.mpr
    ⟨usable, f.toNat / 4096, mem_pageNumbers.mpr ⟨by omega, by omega, by omega⟩, ?_⟩⟩
  apply BitVec.eq_of_toNat_eq
  have range := f.isLt
  rw [pageFrame, BitVec.toNat_ofNat]
  omega

namespace BootMap

variable (map : BootMap)

/-- The pages that lie in a usable entry as a whole, in entry order. -/
def pages : List PhysAddr := pagesFrom map.view map.count 0 0

variable {map}

theorem mem_pages {f : PhysAddr} :
    f ∈ map.pages ↔ ∃ i < map.count, f ∈ pagesIn (map.view i) 0 := by
  rw [pages, mem_pagesFrom]
  constructor
  · rintro ⟨i, -, high, inside⟩
    exact ⟨i, by omega, inside⟩
  · rintro ⟨i, high, inside⟩
    exact ⟨i, by omega, by omega, inside⟩

theorem toNat_of_mem_pagesIn {i : Nat} (inMap : i < map.count) {f : PhysAddr}
    (inside : f ∈ pagesIn (map.view i) 0) :
    isUsable (map.view i).memType = true ∧ f.toNat % 4096 = 0 ∧
      (map.view i).base.toNat ≤ f.toNat ∧
      f.toNat + 4096 ≤ (map.view i).base.toNat + (map.view i).len.toNat := by
  obtain ⟨usable, n, listed, rfl⟩ := mem_pagesIn.mp inside
  have bound := map.below i inMap usable
  have page := mem_pageNumbers.mp listed
  rw [toNat_pageFrame (by omega)]
  exact ⟨usable, by omega, by omega, by omega⟩

theorem isFrame_of_mem {f : PhysAddr} (inside : f ∈ map.pages) : IsFrame f := by
  obtain ⟨i, inMap, page⟩ := mem_pages.mp inside
  obtain ⟨usable, aligned, low, high⟩ := toNat_of_mem_pagesIn inMap page
  have bound := map.below i inMap usable
  exact (isFrame_iff f).mpr ⟨aligned, by omega⟩

/-- A page lies in one entry only. -/
theorem entry_unique {i j : Nat} (first : i < map.count) (second : j < map.count)
    {f : PhysAddr} (one : f ∈ pagesIn (map.view i) 0) (two : f ∈ pagesIn (map.view j) 0) :
    i = j := by
  obtain ⟨usable, -, low, high⟩ := toNat_of_mem_pagesIn first one
  obtain ⟨usable', -, low', high'⟩ := toNat_of_mem_pagesIn second two
  exact map.disjoint first second usable usable' (x := f.toNat) ⟨low, by omega⟩
    ⟨low', by omega⟩

theorem pagesIn_nodup {i : Nat} (inMap : i < map.count) :
    (pagesIn (map.view i) 0).Nodup := by
  rw [pagesIn]
  split
  · rename_i usable
    have bound := map.below i inMap usable
    refine List.Nodup.map_on (fun n one k two same => ?_) List.nodup_range'
    have left := mem_pageNumbers.mp one
    have right := mem_pageNumbers.mp two
    have numbers := congrArg BitVec.toNat same
    rw [toNat_pageFrame (by omega), toNat_pageFrame (by omega)] at numbers
    omega
  · exact List.nodup_nil

theorem pages_nodup : map.pages.Nodup := by
  suffices tail : ∀ rounds cur, cur + rounds = map.count →
      (pagesFrom map.view rounds cur 0).Nodup from tail map.count 0 (by omega)
  intro rounds
  induction rounds with
  | zero => exact fun _ _ => List.nodup_nil
  | succ rounds inductionHypothesis =>
      intro cur count
      rw [pagesFrom, List.nodup_append]
      refine ⟨pagesIn_nodup (by omega), inductionHypothesis (cur + 1) (by omega), ?_⟩
      rintro f here g later rfl
      obtain ⟨j, low, high, inside⟩ := mem_pagesFrom.mp later
      have same : cur = j := entry_unique (by omega) (by omega) here inside
      omega

end BootMap

/-! ### Where the pages are -/

/-- The cursor is somewhere in the map, and the free list holds pages of it. -/
structure BootInMap (map : BootMap) (alloc : BootPtAlloc) : Prop where
  count : alloc.entryCount = map.count
  cursor : alloc.curAddr.toNat ≤ 2 ^ 52
  ahead : alloc.remaining map.view <:+ map.pages
  freePages : ∀ {f}, f ∈ alloc.freeList → f ∈ map.pages

/-- Moreover free pages are behind the cursor, and none is listed twice. -/
structure BootValid (map : BootMap) (alloc : BootPtAlloc) : Prop
    extends BootInMap map alloc where
  freeNodup : alloc.freeList.Nodup
  freeBehind : ∀ {f}, f ∈ alloc.freeList → f ∉ alloc.remaining map.view

/-- The pages handed out and not on the free list. -/
def BootHeld (map : BootMap) (alloc : BootPtAlloc) (f : PhysAddr) : Prop :=
  f ∈ map.pages ∧ f ∉ alloc.freeList ∧ f ∉ alloc.remaining map.view

theorem takeFrame_cases (view : Nat → MemMapEntry) (alloc : BootPtAlloc) :
    (∃ top rest, ∃ short : rest.length ≤ maxFreeFrames, alloc.freeList = top :: rest ∧
        alloc.takeFrame view =
          (some top, { alloc with freeList := rest, freeList_length := short })) ∨
      (alloc.freeList = [] ∧ alloc.takeFrame view = alloc.nextFromMap view) := by
  rw [BootPtAlloc.takeFrame]
  split
  · rename_i top rest free
    have bound := alloc.freeList_length
    rw [free, List.length_cons] at bound
    exact Or.inl ⟨top, rest, by omega, free, rfl⟩
  · rename_i free
    exact Or.inr ⟨free, rfl⟩

/-- `alloc_frame_4k` takes a frame and clears it. -/
theorem allocFrame4k_eq {view : Nat → MemMapEntry} {alloc after : BootPtAlloc} {m m' : Mem}
    {frame : Option PhysAddr} (done : alloc.allocFrame4k view m = (frame, after, m')) :
    alloc.takeFrame view = (frame, after) ∧ m' = frame.elim m (zeroFrame m) := by
  rw [BootPtAlloc.allocFrame4k] at done
  rcases taken : alloc.takeFrame view with ⟨_ | f, after'⟩ <;> rw [taken] at done
  all_goals
    obtain ⟨rfl, rfl, rfl⟩ := done
    exact ⟨rfl, rfl⟩

/-- The same for an allocator type that wraps this one. -/
theorem allocFrame4k_wrapped {A : Type} {wrap : BootPtAlloc → A} {view : Nat → MemMapEntry}
    {alloc : BootPtAlloc} {a : A} {m m' : Mem} {frame : Option PhysAddr}
    (done : (match alloc.allocFrame4k view m with
      | (frame, after, m') => (frame, wrap after, m')) = (frame, a, m')) :
    ∃ after, a = wrap after ∧ alloc.takeFrame view = (frame, after) ∧
      m' = frame.elim m (zeroFrame m) := by
  rcases inner : alloc.allocFrame4k view m with ⟨frame', after, m''⟩
  rw [inner] at done
  obtain ⟨rfl, rfl, rfl⟩ := done
  exact ⟨after, rfl, allocFrame4k_eq inner⟩

section

variable {map : BootMap} {alloc after : BootPtAlloc} {f : PhysAddr}

namespace BootInMap

theorem nextFromMap (inMap : BootInMap map alloc) :
    TakesHead (2 ^ 52) map.view alloc (alloc.nextFromMap map.view) :=
  nextFromMap_upTo (by decide) (inMap.count ▸ map.below) inMap.cursor

/-- Moving the cursor keeps what is known of the free list. -/
theorem advance (inMap : BootInMap map alloc) (same : SameButCursor alloc after)
    (cursor : after.curAddr.toNat ≤ 2 ^ 52)
    (rest : after.remaining map.view = (alloc.remaining map.view).tail) :
    BootInMap map after where
  count := by
    rw [same]
    exact inMap.count
  cursor := cursor
  ahead := by
    rw [rest]
    exact (List.tail_suffix _).trans inMap.ahead
  freePages inside := inMap.freePages (by rw [same] at inside; exact inside)

theorem takeFrame (inMap : BootInMap map alloc) {frame : Option PhysAddr}
    (taken : alloc.takeFrame map.view = (frame, after)) :
    BootInMap map after ∧ ∀ f ∈ frame, f ∈ map.pages := by
  rcases takeFrame_cases map.view alloc with ⟨top, rest, short, free, done⟩ | ⟨-, done⟩
  · rw [done] at taken
    obtain ⟨rfl, rfl⟩ := Prod.mk.inj taken
    have listed : ∀ {g}, g ∈ top :: rest → g ∈ map.pages := fun inside =>
      inMap.freePages (free ▸ inside)
    refine ⟨⟨inMap.count, inMap.cursor, inMap.ahead, fun more => listed (.tail _ more)⟩, ?_⟩
    rintro f ⟨⟩
    exact listed List.mem_cons_self
  · obtain ⟨same, cursor, head, rest⟩ := inMap.nextFromMap
    rw [done] at taken
    rw [taken] at same cursor head rest
    refine ⟨inMap.advance same cursor rest, fun f found => ?_⟩
    dsimp only at head
    rw [head] at found
    exact inMap.ahead.subset (List.mem_of_head? found)

theorem freeFrame4k (inMap : BootInMap map alloc) (page : f ∈ map.pages) :
    BootInMap map (alloc.freeFrame4k f) := by
  rw [BootPtAlloc.freeFrame4k]
  split
  · refine ⟨inMap.count, inMap.cursor, inMap.ahead, fun {g} listed => ?_⟩
    rcases List.mem_cons.mp listed with rfl | old
    · exact page
    · exact inMap.freePages old
  · exact inMap

end BootInMap

namespace BootValid

theorem advance (valid : BootValid map alloc) (same : SameButCursor alloc after)
    (cursor : after.curAddr.toNat ≤ 2 ^ 52)
    (rest : after.remaining map.view = (alloc.remaining map.view).tail) :
    BootValid map after where
  toBootInMap := valid.toBootInMap.advance same cursor rest
  freeNodup := by
    rw [same]
    exact valid.freeNodup
  freeBehind inside := by
    rw [same] at inside
    rw [rest]
    exact fun later => valid.freeBehind inside (List.mem_of_mem_tail later)

theorem takeFrame_none (valid : BootValid map alloc)
    (taken : alloc.takeFrame map.view = (none, after)) :
    BootValid map after ∧ (∀ g, BootHeld map after g ↔ BootHeld map alloc g) ∧
      alloc.remaining map.view = [] ∧ after.remaining map.view = [] := by
  rcases takeFrame_cases map.view alloc with ⟨_, _, _, _, done⟩ | ⟨empty, done⟩
  · rw [done] at taken
    cases taken
  · obtain ⟨same, cursor, head, rest⟩ := valid.nextFromMap
    rw [done] at taken
    rw [taken] at same cursor head rest
    dsimp only at same cursor rest
    have nothing : alloc.remaining map.view = [] := List.head?_eq_none_iff.mp head.symm
    refine ⟨valid.advance same cursor rest, fun g => ?_, nothing, by rw [rest, nothing]; rfl⟩
    have free : after.freeList = alloc.freeList := by rw [same]
    rw [BootHeld, BootHeld, rest, nothing, free]
    rfl

/-- Where `f` leaves the frames still to be given, it is the one frame that
becomes held. -/
theorem held_taken (page : f ∈ map.pages) (unlisted : f ∉ after.freeList)
    (behind : f ∉ after.remaining map.view)
    (left : ∀ g, g ∈ alloc.freeList ∨ g ∈ alloc.remaining map.view ↔
      g = f ∨ g ∈ after.freeList ∨ g ∈ after.remaining map.view) :
    ¬ BootHeld map alloc f ∧ ∀ g, BootHeld map after g ↔ BootHeld map alloc g ∨ g = f := by
  refine ⟨fun held => ((left f).mpr (Or.inl rfl)).elim held.2.1 held.2.2, fun g => ?_⟩
  have part := left g
  rw [BootHeld, BootHeld]
  constructor
  · rintro ⟨inside, notFree, notAhead⟩
    by_cases same : g = f
    · exact Or.inr same
    · exact Or.inl ⟨inside, by tauto, by tauto⟩
  · rintro (⟨inside, notFree, notAhead⟩ | rfl)
    · exact ⟨inside, by tauto, by tauto⟩
    · exact ⟨page, unlisted, behind⟩

theorem takeFrame_some (valid : BootValid map alloc)
    (taken : alloc.takeFrame map.view = (some f, after)) :
    BootValid map after ∧ f ∈ map.pages ∧ ¬ BootHeld map alloc f ∧
      ∀ g, BootHeld map after g ↔ BootHeld map alloc g ∨ g = f := by
  rcases takeFrame_cases map.view alloc with ⟨top, rest, short, free, done⟩ | ⟨empty, done⟩
  · rw [done] at taken
    obtain ⟨rfl, rfl⟩ : top = f ∧ _ = after := by simpa using taken
    have listed : top ∈ alloc.freeList := free ▸ List.mem_cons_self
    obtain ⟨fresh, nodup⟩ := List.nodup_cons.mp (free ▸ valid.freeNodup)
    have inside : ∀ {g}, g ∈ rest → g ∈ alloc.freeList := fun more =>
      free ▸ List.mem_cons_of_mem top more
    refine ⟨⟨(valid.takeFrame done).1, nodup, fun more => valid.freeBehind (inside more)⟩,
      valid.freePages listed,
      held_taken (valid.freePages listed) fresh (valid.freeBehind listed) fun g => ?_⟩
    rw [free, List.mem_cons, or_assoc]
    rfl
  · obtain ⟨same, cursor, head, rest⟩ := valid.nextFromMap
    rw [done] at taken
    rw [taken] at same cursor head rest
    dsimp only at same cursor rest
    obtain ⟨later, ahead⟩ := List.head?_eq_some_iff.mp head.symm
    have free : after.freeList = [] := by rw [same, ← empty]
    have page : f ∈ map.pages := valid.ahead.subset (ahead ▸ List.mem_cons_self)
    obtain ⟨fresh, -⟩ :=
      List.nodup_cons.mp (ahead ▸ map.pages_nodup.sublist valid.ahead.sublist)
    refine ⟨valid.advance same cursor rest, page,
      held_taken page (by simp [free]) (by rwa [rest, ahead]) fun g => ?_⟩
    rw [rest, ahead, free, empty, List.mem_cons, List.tail_cons]
    simp

theorem freeFrame4k (valid : BootValid map alloc) (held : BootHeld map alloc f) :
    BootValid map (alloc.freeFrame4k f) ∧
      (∀ g, g ≠ f → BootHeld map alloc g → BootHeld map (alloc.freeFrame4k f) g) ∧
      ∀ g, BootHeld map (alloc.freeFrame4k f) g → BootHeld map alloc g := by
  have inMap := valid.toBootInMap.freeFrame4k held.1
  rw [BootPtAlloc.freeFrame4k] at inMap ⊢
  split
  · rename_i room
    rw [dif_pos room] at inMap
    refine ⟨⟨inMap, List.nodup_cons.mpr ⟨held.2.1, valid.freeNodup⟩, ?_⟩, ?_, ?_⟩
    · intro g listed
      rcases List.mem_cons.mp listed with rfl | old
      · exact held.2.2
      · exact valid.freeBehind old
    · rintro g other ⟨page, unlisted, behind⟩
      exact ⟨page, fun listed => (List.mem_cons.mp listed).elim other unlisted, behind⟩
    · rintro g ⟨page, unlisted, behind⟩
      exact ⟨page, fun listed => unlisted (List.mem_cons_of_mem f listed), behind⟩
  · exact ⟨valid, fun _ _ still => still, fun _ still => still⟩

end BootValid

end

/-! ### The allocator as a client sees it -/

/-- The boot allocator over a memory map. -/
structure BootAllocOver (map : BootMap) where
  alloc : BootPtAlloc

instance (map : BootMap) : PageTableFrameAlloc (BootAllocOver map) where
  allocFrame4k a m :=
    let (frame, after, m') := a.alloc.allocFrame4k map.view m
    (frame, ⟨after⟩, m')
  freeFrame4k a paddr := ⟨a.alloc.freeFrame4k paddr⟩

theorem bootAlloc_cases {map : BootMap} {a a' : BootAllocOver map} {m m' : Mem}
    {frame : Option PhysAddr} (done : allocFrame4k a m = (frame, a', m')) :
    a.alloc.takeFrame map.view = (frame, a'.alloc) ∧
      m' = frame.elim m (zeroFrame m) := by
  obtain ⟨after, rfl, taken⟩ := allocFrame4k_wrapped done
  exact taken

instance bootAlloc_lawful (map : BootMap) : LawfulFrameAlloc (BootAllocOver map) where
  Valid a := BootValid map a.alloc
  Held a := BootHeld map a.alloc
  alloc_none valid done := by
    obtain ⟨taken, rfl⟩ := bootAlloc_cases done
    obtain ⟨valid', held, -⟩ := valid.takeFrame_none taken
    exact ⟨valid', rfl, held⟩
  alloc_some valid done := by
    obtain ⟨taken, rfl⟩ := bootAlloc_cases done
    obtain ⟨valid', page, free, held⟩ := valid.takeFrame_some taken
    exact ⟨valid', BootMap.isFrame_of_mem page, free, held, fun x outside => if_neg outside⟩
  free valid held := valid.freeFrame4k held

end RincOs
