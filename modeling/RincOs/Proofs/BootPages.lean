/-
Module: RincOs.Proofs.BootPages
Purpose: The boot allocator enumerates the pages of its memory map.  What its
  cursor can still produce is one list, of which each call takes the head.
Trusted boundary: none
Main exports:
  pagesIn, pagesFrom, BootPtAlloc.remaining, UsableUpTo, PagesUpTo, TakesHead,
  nextFromMap_pages, nextFromMap_upTo
-/
import RincOs.Kernel.BootPtAlloc

namespace RincOs

/-! ### Pages of a memory map -/

/-- The frame with the given number. -/
def pageFrame (n : Nat) : PhysAddr := BitVec.ofNat 64 (4096 * n)

/-- The numbers of the pages that lie in `[start, base + len)` as a whole. -/
def pageNumbers (entry : MemMapEntry) (start : Nat) : List Nat :=
  let first := (max start entry.base.toNat + 4095) / 4096
  let last := (entry.base.toNat + entry.len.toNat) / 4096
  List.range' first (last - first)

/-- The pages an entry contributes from address `start` on, ascending. -/
def pagesIn (entry : MemMapEntry) (start : Nat) : List PhysAddr :=
  if isUsable entry.memType then (pageNumbers entry start).map pageFrame else []

/-- The pages of `rounds` entries from entry `cur` on, in entry order, where the
first entry counts from address `start` only. -/
def pagesFrom (view : Nat → MemMapEntry) : Nat → Nat → Nat → List PhysAddr
  | 0, _, _ => []
  | rounds + 1, cur, start =>
      pagesIn (view cur) start ++ pagesFrom view rounds (cur + 1) 0

/-- What the cursor of the allocator has not passed yet. -/
def BootPtAlloc.remaining (view : Nat → MemMapEntry) (self : BootPtAlloc) :
    List PhysAddr :=
  pagesFrom view (self.entryCount - self.curEntry) self.curEntry self.curAddr.toNat

/-- All usable entries end at `bound` or below. -/
def UsableUpTo (bound : Nat) (view : Nat → MemMapEntry) (count : Nat) : Prop :=
  ∀ i < count, isUsable (view i).memType = true →
    (view i).base.toNat + (view i).len.toNat ≤ bound

/-- All usable entries start at `bound` or below, and so do the ends of their pages. -/
def PagesUpTo (bound : Nat) (view : Nat → MemMapEntry) (count : Nat) : Prop :=
  ∀ i < count, isUsable (view i).memType = true →
    (view i).base.toNat ≤ bound ∧ (view i).base.toNat + (view i).len.toNat < 2 ^ 64 ∧
      ((view i).base.toNat + (view i).len.toNat) / 4096 * 4096 ≤ bound

/-- The highest end of an entry for which no addition of the cursor overflows:
rounding up and adding a page stay in range. -/
def cursorLimit : Nat := 2 ^ 64 - 8192

/-! ### One step of the cursor -/

theorem toNat_alignUp {x : Word} (bound : x.toNat + 4095 < 2 ^ 64) :
    (alignUp x pageSize).toNat = (x.toNat + 4095) / 4096 * 4096 := by
  have mask : ~~~(pageSize - 1) = WordField.fieldMask 64 12 64 := by decide
  have sum : (x + pageSize - 1).toNat = x.toNat + 4095 := by
    have size : pageSize.toNat = 4096 := rfl
    have one : (1 : Word).toNat = 1 := rfl
    rw [BitVec.toNat_sub, BitVec.toNat_add, size, one]
    omega
  rw [alignUp, mask, WordField.toNat_and_fieldMask _ (by decide) (by decide), sum]
  omega

theorem checkedAdd_eq {a b : Word} (bound : a.toNat + b.toNat < 2 ^ 64) :
    checkedAdd a b = some (a + b) ∧ (a + b).toNat = a.toNat + b.toNat :=
  ⟨if_pos bound, by rw [BitVec.toNat_add]; omega⟩

/-- The page numbers left once the first one was taken. -/
theorem pageNumbers_next {entry : MemMapEntry} {start : Nat}
    (fits : ((max start entry.base.toNat + 4095) / 4096 + 1) * 4096 ≤
      entry.base.toNat + entry.len.toNat) :
    pageNumbers entry start =
      (max start entry.base.toNat + 4095) / 4096 ::
        pageNumbers entry (((max start entry.base.toNat + 4095) / 4096 + 1) * 4096) := by
  simp only [pageNumbers]
  generalize entry.base.toNat = base at fits ⊢
  generalize entry.len.toNat = len at fits ⊢
  have first : (max start base + 4095) / 4096 < (base + len) / 4096 := by omega
  have again : (max (((max start base + 4095) / 4096 + 1) * 4096) base + 4095) / 4096 =
      (max start base + 4095) / 4096 + 1 := by omega
  rw [again]
  obtain ⟨more, count⟩ : ∃ more, (base + len) / 4096 - (max start base + 4095) / 4096 =
      more + 1 := ⟨_, (Nat.sub_add_cancel (by omega)).symm⟩
  rw [count, List.range'_succ]
  congr 2
  omega

theorem pageNumbers_none {entry : MemMapEntry} {start : Nat}
    (full : entry.base.toNat + entry.len.toNat <
      ((max start entry.base.toNat + 4095) / 4096 + 1) * 4096) :
    pageNumbers entry start = [] := by
  simp only [pageNumbers]
  rw [show (entry.base.toNat + entry.len.toNat) / 4096 -
    (max start entry.base.toNat + 4095) / 4096 = 0 by omega]
  rfl

/-- A round at a usable entry takes its next page, or goes on if there is none. -/
theorem mapRound_usable {view : Nat → MemMapEntry} {self : BootPtAlloc} {bound : Nat}
    (inRange : bound ≤ cursorLimit) (more : self.curEntry < self.entryCount)
    (usable : isUsable (view self.curEntry).memType = true)
    (start : (view self.curEntry).base.toNat ≤ bound)
    (fits : (view self.curEntry).base.toNat + (view self.curEntry).len.toNat < 2 ^ 64)
    (pages : ((view self.curEntry).base.toNat + (view self.curEntry).len.toNat) / 4096 * 4096 ≤
      bound)
    (cursor : self.curAddr.toNat ≤ bound) :
    (pageNumbers (view self.curEntry) self.curAddr.toNat = [] ∧
        self.mapRound view = .skip) ∨
      ∃ n rest, self.mapRound view = .take (pageFrame n) ∧
        (pageFrame n + pageSize).toNat ≤ bound ∧
        pageNumbers (view self.curEntry) self.curAddr.toNat = n :: rest ∧
        pageNumbers (view self.curEntry) (pageFrame n + pageSize).toNat = rest := by
  have inside : ¬ self.entryCount ≤ self.curEntry := Nat.not_le.mpr more
  rw [BootPtAlloc.mapRound, BootPtAlloc.entryAt, if_neg inside]
  dsimp only
  generalize view self.curEntry = entry at usable start fits pages ⊢
  obtain ⟨lastEq, last⟩ := checkedAdd_eq (a := entry.base) (b := entry.len) fits
  -- the cursor, moved into the entry and rounded up
  generalize atLeast : (if self.curAddr < entry.base then entry.base else self.curAddr) =
    addr
  have addrNat : addr.toNat = max self.curAddr.toNat entry.base.toNat := by
    rw [← atLeast]
    split <;> rename_i order <;> rw [BitVec.lt_def] at order <;> omega
  rw [cursorLimit] at inRange
  have aligned := @toNat_alignUp addr (by omega)
  have size : pageSize.toNat = 4096 := rfl
  obtain ⟨nextEq, next⟩ := checkedAdd_eq (a := alignUp addr pageSize) (b := pageSize)
    (by omega)
  rw [addrNat] at aligned
  have frame : alignUp addr pageSize =
      pageFrame ((max self.curAddr.toNat entry.base.toNat + 4095) / 4096) := by
    apply BitVec.eq_of_toNat_eq
    rw [aligned, pageFrame, BitVec.toNat_ofNat]
    omega
  simp only [usable, Bool.not_true, Bool.false_eq_true, if_false, lastEq, nextEq]
  by_cases full : alignUp addr pageSize + pageSize > entry.base + entry.len
  · left
    rw [if_pos full]
    rw [gt_iff_lt, BitVec.lt_def] at full
    exact ⟨pageNumbers_none (by omega), rfl⟩
  · right
    rw [if_neg full]
    rw [gt_iff_lt, BitVec.lt_def] at full
    have value : (alignUp addr pageSize + pageSize).toNat =
        ((max self.curAddr.toNat entry.base.toNat + 4095) / 4096 + 1) * 4096 := by omega
    have room : ((max self.curAddr.toNat entry.base.toNat + 4095) / 4096 + 1) * 4096 ≤
        entry.base.toNat + entry.len.toNat := by
      rw [value, last] at full
      exact Nat.not_lt.mp full
    refine ⟨_, _, congrArg _ frame, ?_, pageNumbers_next room, ?_⟩
    · rw [← frame, value]
      have whole := (Nat.le_div_iff_mul_le (by decide)).mpr room
      exact (Nat.mul_le_mul_right 4096 whole).trans pages
    · rw [← frame, value]

/-! ### The cursor as a list -/

theorem pagesIn_usable {entry : MemMapEntry} (usable : isUsable entry.memType = true)
    (start : Nat) : pagesIn entry start = (pageNumbers entry start).map pageFrame :=
  if_pos usable

/-- `after` is `before` with another cursor. -/
def SameButCursor (before after : BootPtAlloc) : Prop :=
  after = { before with curEntry := after.curEntry, curAddr := after.curAddr }

/-- `next_from_map` returns the head of the pages left and moves on to the tail; the
cursor stays up to `bound`. -/
def TakesHead (bound : Nat) (view : Nat → MemMapEntry) (before : BootPtAlloc)
    (outcome : Option PhysAddr × BootPtAlloc) : Prop :=
  SameButCursor before outcome.2 ∧ outcome.2.curAddr.toNat ≤ bound ∧
    outcome.1 = (before.remaining view).head? ∧
    outcome.2.remaining view = (before.remaining view).tail

theorem remaining_eq {view : Nat → MemMapEntry} {self : BootPtAlloc}
    (more : self.curEntry < self.entryCount) :
    self.remaining view =
      pagesIn (view self.curEntry) self.curAddr.toNat ++ self.skipEntry.remaining view := by
  have rounds : self.entryCount - self.curEntry =
      (self.entryCount - (self.curEntry + 1)) + 1 := by omega
  rw [BootPtAlloc.remaining, rounds, pagesFrom]
  rfl

/-- A new allocator has all pages of the map ahead. -/
theorem bootPtAlloc_new_cursor {view : Nat → MemMapEntry} {boot : BootInfo}
    {alloc : BootPtAlloc} (created : BootPtAlloc.new boot = some alloc) :
    alloc.entryCount = boot.mem.entryCount.toNat ∧ alloc.curAddr = 0 ∧ alloc.freeList = [] ∧
      alloc.remaining view = pagesFrom view boot.mem.entryCount.toNat 0 0 := by
  rw [BootPtAlloc.new] at created
  repeat' split at created
  all_goals cases created
  exact ⟨rfl, rfl, rfl, rfl⟩

theorem bootPtAlloc_new_start {boot : BootInfo} {alloc : BootPtAlloc}
    (created : BootPtAlloc.new boot = some alloc) : alloc.curEntry = 0 ∧ alloc.curAddr = 0 := by
  rw [BootPtAlloc.new] at created
  repeat' split at created
  all_goals cases created
  exact ⟨rfl, rfl⟩

/-- An entry without pages is passed over. -/
theorem takesHead_skip {bound : Nat} {view : Nat → MemMapEntry} {self : BootPtAlloc}
    {outcome : Option PhysAddr × BootPtAlloc} (more : self.curEntry < self.entryCount)
    (none : pagesIn (view self.curEntry) self.curAddr.toNat = [])
    (onward : TakesHead bound view self.skipEntry outcome) :
    TakesHead bound view self outcome := by
  obtain ⟨same, cursor, rest⟩ := onward
  rw [TakesHead, remaining_eq more, none, List.nil_append]
  exact ⟨same, cursor, rest⟩

theorem nextFromMapLoop_spec {bound : Nat} {view : Nat → MemMapEntry} {rounds : Nat}
    {self : BootPtAlloc} (inRange : bound ≤ cursorLimit)
    (below : PagesUpTo bound view self.entryCount)
    (left : rounds = self.entryCount - self.curEntry) (cursor : self.curAddr.toNat ≤ bound) :
    TakesHead bound view self (self.nextFromMapLoop view rounds) := by
  induction rounds generalizing self with
  | zero =>
      rw [TakesHead, BootPtAlloc.remaining, ← left]
      refine ⟨rfl, cursor, rfl, ?_⟩
      rw [BootPtAlloc.nextFromMapLoop, BootPtAlloc.remaining, ← left]
      rfl
  | succ rounds inductionHypothesis =>
      have more : self.curEntry < self.entryCount := by omega
      have onward := @inductionHypothesis self.skipEntry below
        (by change rounds = self.entryCount - (self.curEntry + 1); omega) (Nat.zero_le _)
      rw [BootPtAlloc.nextFromMapLoop]
      cases usable : isUsable (view self.curEntry).memType with
      | false =>
          have skipped : self.mapRound view = .skip := by
            rw [BootPtAlloc.mapRound, BootPtAlloc.entryAt, if_neg (Nat.not_le.mpr more)]
            simp [usable]
          rw [skipped]
          exact takesHead_skip more (by simp [pagesIn, usable]) onward
      | true =>
          have pagesHere := pagesIn_usable usable
          obtain ⟨start, fits, pages⟩ := below _ more usable
          rcases mapRound_usable inRange more usable start fits pages cursor with
            ⟨none, skipped⟩ | ⟨n, rest, taken, bound, here, later⟩
          · rw [skipped]
            exact takesHead_skip more (by rw [pagesHere, none]; rfl) onward
          · rw [taken]
            dsimp only
            generalize pageFrame n + pageSize = next at bound later ⊢
            refine ⟨rfl, bound, ?_, ?_⟩
            · rw [remaining_eq more, pagesHere, here]
              rfl
            · rw [remaining_eq more, pagesHere, here]
              calc ({ self with curAddr := next } : BootPtAlloc).remaining view
                  = pagesIn (view self.curEntry) next.toNat ++
                      self.skipEntry.remaining view := remaining_eq more
                _ = rest.map pageFrame ++ self.skipEntry.remaining view := by
                  rw [pagesHere, later]

theorem nextFromMap_pages {bound : Nat} {view : Nat → MemMapEntry} {self : BootPtAlloc}
    (inRange : bound ≤ cursorLimit) (below : PagesUpTo bound view self.entryCount)
    (cursor : self.curAddr.toNat ≤ bound) :
    TakesHead bound view self (self.nextFromMap view) :=
  nextFromMapLoop_spec inRange below rfl cursor

/-- The cursor of a map whose entries end early enough enumerates its pages. -/
theorem nextFromMap_upTo {bound : Nat} {view : Nat → MemMapEntry} {self : BootPtAlloc}
    (inRange : bound ≤ cursorLimit) (below : UsableUpTo bound view self.entryCount)
    (cursor : self.curAddr.toNat ≤ bound) :
    TakesHead bound view self (self.nextFromMap view) := by
  apply nextFromMap_pages inRange _ cursor
  intro i inMap usable
  have last := below i inMap usable
  rw [cursorLimit] at inRange
  omega

end RincOs
