/-
Module: RincOs.Proofs.CursorSafety
Purpose: The cursor of the boot allocator on memory maps of any kind.  A round of
  its loop overflows only at an entry that reaches the last page of the address
  space, and where no such entry is reached every frame is a page of an entry.
Trusted boundary: none
Main exports:
  mapRoundChecked_usable, Passes, Overflows, CursorOk, Doomed, CursorSafe,
  cursorSafe_iff, cursorSafe_crowded, frame_zero_returned
-/
import RincOs.Proofs.FrameConservation

namespace RincOs

namespace BootPtAlloc

variable {view : Nat → MemMapEntry} {self : BootPtAlloc}

/-! ### One round -/

/-- The address a round starts from. -/
def roundStart (view : Nat → MemMapEntry) (self : BootPtAlloc) : Nat :=
  max self.curAddr.toNat (view self.curEntry).base.toNat

theorem alignUpChecked_eq (x : Word) :
    alignUpChecked x pageSize =
      if 2 ^ 64 - 4096 ≤ x.toNat then none
      else some (BitVec.ofNat 64 ((x.toNat + 4095) / 4096 * 4096)) := by
  have size : pageSize.toNat = 4096 := rfl
  rw [alignUpChecked, checkedAdd, size]
  by_cases fits : x.toNat + 4096 < 2 ^ 64
  · have sum : (x + pageSize).toNat = x.toNat + 4096 := by
      rw [BitVec.toNat_add, size]
      omega
    have positive : ¬ x + pageSize = 0 := by
      intro zero
      rw [zero] at sum
      change 0 = _ at sum
      omega
    have below : ¬ 2 ^ 64 - 4096 ≤ x.toNat := by omega
    have same : alignUp x pageSize =
        BitVec.ofNat 64 ((x.toNat + 4095) / 4096 * 4096) := by
      apply BitVec.eq_of_toNat_eq
      have aligned := @toNat_alignUp x (by omega)
      rw [BitVec.toNat_ofNat]
      omega
    rw [alignUp] at same
    simp only [if_pos fits, Option.bind_eq_bind, Option.bind_some, if_neg positive,
      if_neg below, same]
  · have above : 2 ^ 64 - 4096 ≤ x.toNat := by omega
    rw [if_neg fits, if_pos above]
    rfl

/-- A round at a usable entry that ends below 2⁶⁴. -/
theorem mapRoundChecked_usable (more : self.curEntry < self.entryCount)
    (usable : isUsable (view self.curEntry).memType = true)
    (fits : (view self.curEntry).base.toNat + (view self.curEntry).len.toNat < 2 ^ 64) :
    self.mapRoundChecked view =
      let addr := (self.roundStart view + 4095) / 4096 * 4096
      if 2 ^ 64 - 4096 ≤ self.roundStart view then none
      else if addr = 2 ^ 64 - 4096 then some .stop
      else if (view self.curEntry).base.toNat + (view self.curEntry).len.toNat < addr + 4096
        then some .skip
      else some (.take (BitVec.ofNat 64 addr)) := by
  have inside : ¬ self.entryCount ≤ self.curEntry := Nat.not_le.mpr more
  have size : pageSize.toNat = 4096 := rfl
  rw [mapRoundChecked, entryAt, if_neg inside, roundStart]
  dsimp only
  generalize view self.curEntry = entry at usable fits ⊢
  obtain ⟨lastEq, last⟩ := @checkedAdd_eq entry.base entry.len fits
  generalize atLeast : (if self.curAddr < entry.base then entry.base else self.curAddr) =
    start
  have startNat : start.toNat = max self.curAddr.toNat entry.base.toNat := by
    rw [← atLeast]
    split <;> rename_i order <;> rw [BitVec.lt_def] at order <;> omega
  rw [← startNat]
  simp only [usable, Bool.not_true, Bool.false_eq_true, if_false, lastEq, alignUpChecked_eq]
  by_cases top : 2 ^ 64 - 4096 ≤ start.toNat
  · rw [if_pos top, if_pos top]
  rw [if_neg top, if_neg top]
  dsimp only
  generalize isAddr : (start.toNat + 4095) / 4096 * 4096 = addr
  have bound : addr ≤ 2 ^ 64 - 4096 := by omega
  have addrNat : (BitVec.ofNat 64 addr).toNat = addr := by
    rw [BitVec.toNat_ofNat]
    omega
  by_cases lastPage : addr = 2 ^ 64 - 4096
  · have overflows : ¬ (BitVec.ofNat 64 addr).toNat + pageSize.toNat < 2 ^ 64 := by omega
    rw [checkedAdd, if_neg overflows, if_pos lastPage]
  · obtain ⟨nextEq, next⟩ := @checkedAdd_eq (BitVec.ofNat 64 addr) pageSize (by omega)
    have order : BitVec.ofNat 64 addr + pageSize > entry.base + entry.len ↔
        entry.base.toNat + entry.len.toNat < addr + 4096 := by
      rw [gt_iff_lt, BitVec.lt_def, next, last, addrNat, size]
    simp only [nextEq, if_neg lastPage, order]

/-- At an entry that is not usable, a round goes on; at a malformed one it gives up. -/
theorem mapRoundChecked_unusable (more : self.curEntry < self.entryCount)
    (unusable : isUsable (view self.curEntry).memType = false) :
    self.mapRoundChecked view = some .skip := by
  rw [mapRoundChecked, entryAt, if_neg (Nat.not_le.mpr more)]
  simp [unusable]

theorem mapRoundChecked_malformed (more : self.curEntry < self.entryCount)
    (usable : isUsable (view self.curEntry).memType = true)
    (malformed : 2 ^ 64 ≤ (view self.curEntry).base.toNat + (view self.curEntry).len.toNat) :
    self.mapRoundChecked view = some .stop := by
  have overflows : checkedAdd (view self.curEntry).base (view self.curEntry).len = none :=
    if_neg (Nat.not_lt.mpr malformed)
  rw [mapRoundChecked, entryAt, if_neg (Nat.not_le.mpr more)]
  simp [usable, overflows]

/-- Without an overflow, both builds do the same. -/
theorem mapRound_of_checked {round : MapRound} (done : self.mapRoundChecked view = some round) :
    self.mapRound view = round := by
  have align : ∀ x addr : Word, alignUpChecked x pageSize = some addr →
      alignUp x pageSize = addr := by
    intro x addr aligned
    rw [alignUpChecked_eq] at aligned
    split at aligned
    · cases aligned
    · obtain rfl := Option.some.inj aligned
      apply BitVec.eq_of_toNat_eq
      have aligned := @toNat_alignUp x (by omega)
      rw [BitVec.toNat_ofNat]
      omega
  rw [mapRoundChecked] at done
  rw [mapRound]
  split at done
  · exact Option.some.inj done
  · split at done
    · rename_i unusable
      rw [if_pos unusable]
      exact Option.some.inj done
    · rename_i usable
      rw [if_neg usable]
      split at done
      · exact Option.some.inj done
      · dsimp only at done ⊢
        split at done
        · cases done
        · rename_i addr aligned
          rw [align _ _ aligned]
          split at done
          · exact Option.some.inj done
          · split at done
            · rename_i full
              rw [if_pos full]
              exact Option.some.inj done
            · rename_i room
              rw [if_neg room]
              exact Option.some.inj done

/-! ### Calls in a row -/

/-- So many calls of `next_from_map` in a row. -/
def mapCalls (view : Nat → MemMapEntry) :
    Nat → BootPtAlloc → List (Option PhysAddr) × BootPtAlloc
  | 0, self => ([], self)
  | calls + 1, self =>
      let (answer, after) := self.nextFromMap view
      let (answers, last) := mapCalls view calls after
      (answer :: answers, last)

/-- The same with overflow checks. -/
def mapCallsChecked (view : Nat → MemMapEntry) :
    Nat → BootPtAlloc → Option (List (Option PhysAddr) × BootPtAlloc)
  | 0, self => some ([], self)
  | calls + 1, self => do
      let (answer, after) ← self.nextFromMapChecked view
      let (answers, last) ← mapCallsChecked view calls after
      some (answer :: answers, last)

end BootPtAlloc

open BootPtAlloc

/-- However often `next_from_map` is called, nothing overflows, so that both builds do the
same, and each frame is a page of a usable entry. -/
def CursorSafe (view : Nat → MemMapEntry) (count : Nat) (alloc : BootPtAlloc) : Prop :=
  ∀ calls, ∃ answers after,
    alloc.mapCallsChecked view calls = some (answers, after) ∧
      alloc.mapCalls view calls = (answers, after) ∧
      ∀ f, some f ∈ answers → WholePage view count f

/-! ### Entries at the top of the address space -/

/-- The cursor gets past the entry. -/
def Passes (entry : MemMapEntry) : Prop :=
  isUsable entry.memType = true →
    entry.base.toNat ≤ 2 ^ 64 - 8192 ∧ entry.base.toNat + entry.len.toNat < 2 ^ 64 - 4096

/-- A well-formed entry in the last page, or with pages below it up to the last page. -/
def Overflows (entry : MemMapEntry) : Prop :=
  isUsable entry.memType = true ∧ entry.base.toNat + entry.len.toNat < 2 ^ 64 ∧
    (2 ^ 64 - 4096 ≤ entry.base.toNat ∨
      entry.base.toNat ≤ 2 ^ 64 - 8192 ∧
        2 ^ 64 - 4096 ≤ entry.base.toNat + entry.len.toNat)

/-- The cursor is at the start of the entry, or behind one of its pages. -/
def CursorIn (entry : MemMapEntry) (addr : Nat) : Prop :=
  addr = 0 ∨ addr % 4096 = 0 ∧ entry.base.toNat + 4096 ≤ addr ∧
    addr ≤ entry.base.toNat + entry.len.toNat

/-- The cursor has passed the entries before its own. -/
structure CursorOk (view : Nat → MemMapEntry) (alloc : BootPtAlloc) : Prop where
  passed : ∀ j < alloc.curEntry, Passes (view j)
  here : CursorIn (view alloc.curEntry) alloc.curAddr.toNat

/-- No entry that overflows is reached. -/
def NoneReached (view : Nat → MemMapEntry) (count : Nat) : Prop :=
  ∀ i < count, (∀ j < i, Passes (view j)) → ¬ Overflows (view i)

section

variable {view : Nat → MemMapEntry} {self : BootPtAlloc}

theorem CursorOk.skip (ok : CursorOk view self) (passes : Passes (view self.curEntry)) :
    CursorOk view self.skipEntry := by
  refine ⟨?_, .inl rfl⟩
  intro j before
  rcases Nat.lt_succ_iff_lt_or_eq.mp before with earlier | rfl
  · exact ok.passed j earlier
  · exact passes

theorem skipEntry_curAddr (addr : PhysAddr) :
    { self with curAddr := addr }.skipEntry = self.skipEntry :=
  rfl

theorem toNat_afterPage {addr : Nat} (fits : addr + 4096 < 2 ^ 64) :
    (BitVec.ofNat 64 addr + pageSize).toNat = addr + 4096 := by
  have size : pageSize.toNat = 4096 := rfl
  rw [BitVec.toNat_add, BitVec.toNat_ofNat, size]
  omega

/-- Where no entry that overflows is reached, a round does not overflow. -/
theorem CursorOk.round (ok : CursorOk view self) (safe : NoneReached view self.entryCount)
    (more : self.curEntry < self.entryCount) :
    self.mapRoundChecked view = some .stop ∨
      self.mapRoundChecked view = some .skip ∧ CursorOk view self.skipEntry ∨
      ∃ addr, self.mapRoundChecked view = some (.take addr) ∧
        CursorOk view { self with curAddr := addr + pageSize } ∧
        WholePage view self.entryCount addr := by
  have notHere := safe self.curEntry more ok.passed
  cases usable : isUsable (view self.curEntry).memType with
  | false =>
      refine .inr (.inl ⟨mapRoundChecked_unusable more usable, ok.skip ?_⟩)
      intro isUsable
      rw [usable] at isUsable
      cases isUsable
  | true =>
      rcases Nat.lt_or_ge ((view self.curEntry).base.toNat + (view self.curEntry).len.toNat)
        (2 ^ 64) with fits | malformed
      · have here := ok.here
        have room : ¬ (2 ^ 64 - 4096 ≤ (view self.curEntry).base.toNat ∨
            (view self.curEntry).base.toNat ≤ 2 ^ 64 - 8192 ∧
              2 ^ 64 - 4096 ≤
                (view self.curEntry).base.toNat + (view self.curEntry).len.toNat) :=
          fun high => notHere ⟨usable, fits, high⟩
        rw [CursorIn] at here
        have below : ¬ 2 ^ 64 - 4096 ≤ self.roundStart view := by
          rw [roundStart]
          omega
        have low : (view self.curEntry).base.toNat ≤ self.roundStart view :=
          Nat.le_max_right _ _
        rw [mapRoundChecked_usable more usable fits]
        dsimp only
        rw [if_neg below]
        generalize isAddr : (self.roundStart view + 4095) / 4096 * 4096 = addr
        by_cases lastPage : addr = 2 ^ 64 - 4096
        · exact .inl (if_pos lastPage)
        rw [if_neg lastPage]
        by_cases full : (view self.curEntry).base.toNat + (view self.curEntry).len.toNat <
            addr + 4096
        · refine .inr (.inl ⟨if_pos full, ok.skip fun _ => ?_⟩)
          omega
        · refine .inr (.inr ⟨_, if_neg full, ⟨ok.passed, ?_⟩, ?_⟩)
          · dsimp only
            rw [toNat_afterPage (by omega), CursorIn]
            omega
          · have addrNat : (BitVec.ofNat 64 addr).toNat = addr := by
              rw [BitVec.toNat_ofNat]
              omega
            rw [WholePage, addrNat]
            exact ⟨by omega, self.curEntry, more, usable, by omega, by omega⟩
      · exact .inl (mapRoundChecked_malformed more usable malformed)

/-- A call of `next_from_map` from a safe cursor. -/
structure CallOk (view : Nat → MemMapEntry) (before : BootPtAlloc)
    (outcome : Option PhysAddr × BootPtAlloc) : Prop where
  ok : CursorOk view outcome.2
  count : outcome.2.entryCount = before.entryCount
  page : ∀ f, outcome.1 = some f → WholePage view before.entryCount f

theorem CursorOk.loop {rounds : Nat} (ok : CursorOk view self)
    (safe : NoneReached view self.entryCount) (left : rounds = self.entryCount - self.curEntry) :
    ∃ outcome, self.nextFromMapLoopChecked view rounds = some outcome ∧
      self.nextFromMapLoop view rounds = outcome ∧ CallOk view self outcome := by
  induction rounds generalizing self with
  | zero => exact ⟨(none, self), rfl, rfl, ok, rfl, by simp⟩
  | succ rounds inductionHypothesis =>
      rw [nextFromMapLoopChecked, nextFromMapLoop]
      rcases ok.round safe (by omega) with stop | ⟨skip, next⟩ | ⟨addr, take, next, page⟩
      · rw [stop, mapRound_of_checked stop]
        exact ⟨_, rfl, rfl, ok, rfl, by simp⟩
      · rw [skip, mapRound_of_checked skip]
        have onward : rounds = self.skipEntry.entryCount - self.skipEntry.curEntry := by
          change rounds = self.entryCount - (self.curEntry + 1)
          omega
        obtain ⟨outcome, checked, done, callOk⟩ := inductionHypothesis next safe onward
        exact ⟨outcome, checked, done, callOk.ok, callOk.count, callOk.page⟩
      · rw [take, mapRound_of_checked take]
        refine ⟨_, rfl, rfl, next, rfl, ?_⟩
        rintro f same
        obtain rfl := Option.some.inj same
        exact page

theorem CursorOk.calls (ok : CursorOk view self) (safe : NoneReached view self.entryCount) :
    CursorSafe view self.entryCount self := by
  intro calls
  induction calls generalizing self with
  | zero => exact ⟨[], self, rfl, rfl, by simp⟩
  | succ calls inductionHypothesis =>
      obtain ⟨⟨answer, after⟩, checked, done, callOk⟩ := ok.loop safe rfl
      obtain ⟨answers, last, laterChecked, later, pages⟩ :=
        inductionHypothesis callOk.ok (callOk.count ▸ safe)
      refine ⟨answer :: answers, last, ?_, ?_, ?_⟩
      · rw [mapCallsChecked, nextFromMapChecked, checked]
        simp only [Option.bind_eq_bind, Option.bind_some, laterChecked]
      · rw [mapCalls, nextFromMap, done]
        simp only [later]
      · intro f among
        rcases List.mem_cons.mp among with first | other
        · exact callOk.page f first.symm
        · have page := pages f other
          rw [callOk.count] at page
          exact page

/-! ### Entries that overflow are reached -/

/-- Sooner or later a round from this cursor overflows. -/
inductive Doomed (view : Nat → MemMapEntry) : BootPtAlloc → Prop
  | here {self : BootPtAlloc} : self.curEntry < self.entryCount →
      self.mapRoundChecked view = none → Doomed view self
  | skip {self : BootPtAlloc} : self.curEntry < self.entryCount →
      self.mapRoundChecked view = some .skip → Doomed view self.skipEntry → Doomed view self
  | take {self : BootPtAlloc} {addr : PhysAddr} : self.curEntry < self.entryCount →
      self.mapRoundChecked view = some (.take addr) →
      Doomed view { self with curAddr := addr + pageSize } → Doomed view self

theorem nextFromMapChecked_succ (more : self.curEntry < self.entryCount) :
    self.nextFromMapChecked view =
      match self.mapRoundChecked view with
      | none => none
      | some .stop => some (none, self)
      | some .skip => self.skipEntry.nextFromMapChecked view
      | some (.take addr) => some (some addr, { self with curAddr := addr + pageSize }) := by
  have rounds : self.entryCount - self.curEntry =
      (self.entryCount - (self.curEntry + 1)) + 1 := by omega
  rw [nextFromMapChecked, rounds, nextFromMapLoopChecked]
  rfl

/-- Then some number of calls panics. -/
theorem Doomed.panics (doomed : Doomed view self) :
    ∃ calls, self.mapCallsChecked view (calls + 1) = none := by
  induction doomed with
  | here more overflow =>
      refine ⟨0, ?_⟩
      rw [mapCallsChecked, nextFromMapChecked_succ more, overflow]
      rfl
  | skip more skipped _ inductionHypothesis =>
      obtain ⟨calls, panics⟩ := inductionHypothesis
      refine ⟨calls, ?_⟩
      rw [mapCallsChecked, nextFromMapChecked_succ more, skipped]
      exact panics
  | take more taken _ inductionHypothesis =>
      obtain ⟨calls, panics⟩ := inductionHypothesis
      refine ⟨calls + 1, ?_⟩
      rw [mapCallsChecked, nextFromMapChecked_succ more, taken]
      simp only [Option.bind_eq_bind, Option.bind_some, panics, Option.bind_none]

/-- The pages of a well-formed entry are taken one by one; behind the last one the cursor
overflows or goes on with the next entry. -/
theorem doomed_within (more : self.curEntry < self.entryCount)
    (usable : isUsable (view self.curEntry).memType = true)
    (fits : (view self.curEntry).base.toNat + (view self.curEntry).len.toNat < 2 ^ 64)
    (low : (view self.curEntry).base.toNat ≤ 2 ^ 64 - 8192)
    (here : CursorIn (view self.curEntry) self.curAddr.toNat)
    (next : (view self.curEntry).base.toNat + (view self.curEntry).len.toNat < 2 ^ 64 - 4096 →
      Doomed view self.skipEntry) : Doomed view self := by
  -- the cursor moves up by a page at least in every round that takes one
  induction left : 2 ^ 64 - self.curAddr.toNat using Nat.strong_induction_on
    generalizing self with
  | _ left inductionHypothesis =>
      have round := mapRoundChecked_usable more usable fits
      have start : self.roundStart view =
          max self.curAddr.toNat (view self.curEntry).base.toNat := rfl
      rw [CursorIn] at here
      dsimp only at round
      by_cases top : 2 ^ 64 - 4096 ≤ self.roundStart view
      · rw [if_pos top] at round
        exact .here more round
      rw [if_neg top] at round
      generalize isAddr : (self.roundStart view + 4095) / 4096 * 4096 = addr at round
      have notLast : ¬ addr = 2 ^ 64 - 4096 := by omega
      rw [if_neg notLast] at round
      by_cases full : (view self.curEntry).base.toNat + (view self.curEntry).len.toNat <
          addr + 4096
      · rw [if_pos full] at round
        exact .skip more round (next (by omega))
      · rw [if_neg full] at round
        have after : (BitVec.ofNat 64 addr + pageSize).toNat = addr + 4096 :=
          toNat_afterPage (by omega)
        refine .take more round
          (@inductionHypothesis (2 ^ 64 - (addr + 4096)) ?_
            { self with curAddr := BitVec.ofNat 64 addr + pageSize } more usable fits low ?_
            ((skipEntry_curAddr _).symm ▸ next) ?_)
        · omega
        · dsimp only
          rw [after, CursorIn]
          omega
        · dsimp only
          rw [after]

theorem doomed_of_reached {i : Nat} (inMap : i < self.entryCount) (ahead : self.curEntry ≤ i)
    (passes : ∀ j, self.curEntry ≤ j → j < i → Passes (view j)) (overflows : Overflows (view i))
    (atStart : self.curAddr = 0) : Doomed view self := by
  have here : CursorIn (view self.curEntry) self.curAddr.toNat := by
    rw [atStart]
    exact .inl rfl
  induction distanceIs : i - self.curEntry generalizing self with
  | zero =>
      obtain rfl : i = self.curEntry := by omega
      obtain ⟨usable, fits, high | ⟨low, reaches⟩⟩ := overflows
      · have top : 2 ^ 64 - 4096 ≤ self.roundStart view := high.trans (Nat.le_max_right _ _)
        have round := mapRoundChecked_usable inMap usable fits
        dsimp only at round
        rw [if_pos top] at round
        exact .here inMap round
      · exact doomed_within inMap usable fits low here fun below => by omega
  | succ distance inductionHypothesis =>
      have more : self.curEntry < self.entryCount := by omega
      have next : Doomed view self.skipEntry := by
        apply inductionHypothesis
        · exact inMap
        · change self.curEntry + 1 ≤ i
          omega
        · intro j from' before
          change self.curEntry + 1 ≤ j at from'
          exact passes j (by omega) before
        · rfl
        · exact .inl rfl
        · change i - (self.curEntry + 1) = distance
          omega
      have passed := passes self.curEntry le_rfl (by omega)
      cases usable : isUsable (view self.curEntry).memType with
      | false => exact .skip more (mapRoundChecked_unusable more usable) next
      | true =>
          obtain ⟨low, below⟩ := passed usable
          exact doomed_within more usable (by omega) low here fun _ => next

end

/-- The cursor of a new allocator is safe exactly if it reaches no entry that overflows. -/
theorem cursorSafe_iff {boot : BootInfo} {alloc : BootPtAlloc}
    (created : BootPtAlloc.new boot = some alloc) (view : Nat → MemMapEntry) :
    CursorSafe view alloc.entryCount alloc ↔
      ∀ i < alloc.entryCount, (∀ j < i, Passes (view j)) → ¬ Overflows (view i) := by
  have start := bootPtAlloc_new_start created
  constructor
  · intro safe i inMap passes overflows
    have doomed : Doomed view alloc :=
      doomed_of_reached inMap (start.1 ▸ Nat.zero_le i) (fun j _ before => passes j before)
        overflows start.2
    obtain ⟨calls, panics⟩ := doomed.panics
    obtain ⟨answers, after, checked, -⟩ := safe (calls + 1)
    rw [panics] at checked
    cases checked
  · intro safe
    apply CursorOk.calls _ safe
    refine ⟨?_, .inl ?_⟩
    · intro j before
      rw [start.1] at before
      exact absurd before (Nat.not_lt_zero j)
    · rw [start.2]
      rfl

/-- 129 pages at 2 MiB are safe. -/
theorem cursorSafe_crowded : CursorSafe crowdedView tinyAlloc.entryCount tinyAlloc := by
  have created : BootPtAlloc.new tinyBoot = some tinyAlloc := (Option.some_get (by decide)).symm
  apply (cursorSafe_iff created crowdedView).mpr
  intro i _ _ overflows
  have reach : crowdedEntry.base.toNat + crowdedEntry.len.toNat < 2 ^ 64 - 4096 := by decide
  obtain ⟨-, -, high | ⟨-, high⟩⟩ := overflows
  · exact absurd (high.trans (Nat.le_add_right _ _)) (Nat.not_le.mpr reach)
  · exact absurd high (Nat.not_le.mpr reach)

/-- 16 bytes of usable memory in the last page of the address space. -/
def topEntry : MemMapEntry :=
  { base := 0xfffffffffffff001, len := 0x10, memType := .usable, flags := 0 }

/-- With overflow checks the first call panics, without them it returns frame 0. -/
theorem frame_zero_returned :
    tinyAlloc.entryCount = 1 ∧ tinyAlloc.mapCallsChecked (fun _ => topEntry) 1 = none ∧
      (tinyAlloc.mapCalls (fun _ => topEntry) 1).1 = [some 0] ∧
      ¬ WholePage (fun _ => topEntry) 1 0 ∧
      ¬ CursorSafe (fun _ => topEntry) tinyAlloc.entryCount tinyAlloc := by
  have panics : tinyAlloc.mapCallsChecked (fun _ => topEntry) 1 = none := by decide +kernel
  refine ⟨by decide, panics, by decide +kernel, ?_, ?_⟩
  · rintro ⟨-, i, -, -, low, -⟩
    have high : ¬ topEntry.base.toNat ≤ (0 : Word).toNat := by decide
    exact high low
  · intro safe
    obtain ⟨answers, after, checked, -⟩ := safe 1
    rw [panics] at checked
    cases checked

end RincOs
