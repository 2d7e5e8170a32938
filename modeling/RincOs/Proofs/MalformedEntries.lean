/-
Module: RincOs.Proofs.MalformedEntries
Purpose: A memory-map entry whose end exceeds 64 bits.  The boot allocator and the
  lookup of boot strings both give up at such an entry, so that it hides what
  stands behind it; the module says when nothing is hidden.  Maps are arbitrary:
  the entries at the top of the address space, which stop the cursor or send it
  back to frame 0 by themselves, are part of the condition.
Trusted boundary: none
Main exports:
  served, wrapsAround, scanned, pagesOf, frameAt, frameAt_eq, physAvailable_eq_none,
  HidesNothing, hidesNothing_iff, hidesNothing_last, malformed_first
-/
import RincOs.Library.PartialCalls
import RincOs.Proofs.CursorSafety
import RincOs.Proofs.BootStrings

namespace RincOs

open BootPtAlloc PartialCalls

/-! ### Lists of entries -/

/-- `base + len` fits in 64 bits. -/
def MemMapEntry.wellFormed (entry : MemMapEntry) : Bool :=
  decide (entry.base.toNat + entry.len.toNat < 2 ^ 64)

instance (entry : MemMapEntry) : Decidable (Passes entry) :=
  inferInstanceAs (Decidable (isUsable entry.memType = true →
    entry.base.toNat ≤ 2 ^ 64 - 8192 ∧ entry.base.toNat + entry.len.toNat < 2 ^ 64 - 4096))

/-- The cursor does not pass a usable entry that starts or ends too high. -/
theorem not_passes {entry : MemMapEntry} (usable : isUsable entry.memType = true)
    (high : 2 ^ 64 - 8192 < entry.base.toNat ∨
      2 ^ 64 - 4096 ≤ entry.base.toNat + entry.len.toNat) : ¬ Passes entry := by
  intro passes
  have bounds := passes usable
  omega

/-- The entries of which `next_from_map` gives the pages.  The first one that the cursor does
not pass is the last one; if it is malformed it is left out. -/
def served : List MemMapEntry → List MemMapEntry
  | [] => []
  | entry :: entries =>
      if Passes entry then entry :: served entries
      else if entry.wellFormed then [entry]
      else []

/-- The entry that the cursor does not pass is well-formed and starts behind the last page
boundary.  `align_up` then gives 0, in every call. -/
def wrapsAround : List MemMapEntry → Bool
  | [] => false
  | entry :: entries =>
      if Passes entry then wrapsAround entries
      else entry.wellFormed && decide (2 ^ 64 - 4096 < entry.base.toNat)

/-- The entries in front of the one at which `phys_available` gives up. -/
def scanned (entries : List MemMapEntry) : List MemMapEntry :=
  entries.takeWhile MemMapEntry.wellFormed

/-- The pages of the usable entries, in order. -/
def pagesOf (entries : List MemMapEntry) : List PhysAddr :=
  entries.flatMap fun entry => pagesIn entry 0

/-- The array behind `entries_ptr`. -/
def mapView (entries : List MemMapEntry) (i : Nat) : MemMapEntry := entries.getD i default

/-- What call `n` of `next_from_map` answers on a map, counted from 0. -/
def frameAt (alloc : BootPtAlloc) (entries : List MemMapEntry) : Nat → Option PhysAddr :=
  answers (nextFromMap (mapView entries)) alloc

/-! ### The answers at one entry

A round of the loop stops, skips the entry or takes a page.  Skipping changes no answer, and
what is taken stands in front of the later answers. -/

section

variable {view : Nat → MemMapEntry} {self : BootPtAlloc}

theorem nextFromMap_loop (more : self.curEntry < self.entryCount) :
    self.nextFromMap view =
      self.nextFromMapLoop view (self.entryCount - (self.curEntry + 1) + 1) := by
  have rounds : self.entryCount - self.curEntry =
      self.entryCount - (self.curEntry + 1) + 1 := by omega
  rw [nextFromMap, rounds]

theorem answers_end (atEnd : self.entryCount ≤ self.curEntry) (n : Nat) :
    answers (nextFromMap view) self n = none := by
  apply answers_fixed
  rw [nextFromMap, Nat.sub_eq_zero_of_le atEnd, nextFromMapLoop]

theorem answers_stop (more : self.curEntry < self.entryCount)
    (round : self.mapRound view = .stop) (n : Nat) :
    answers (nextFromMap view) self n = none := by
  apply answers_fixed
  rw [nextFromMap_loop more, nextFromMapLoop, round]

theorem answers_skip (more : self.curEntry < self.entryCount)
    (round : self.mapRound view = .skip) :
    answers (nextFromMap view) self = answers (nextFromMap view) self.skipEntry := by
  apply answers_congr
  rw [nextFromMap_loop more, nextFromMapLoop, round]
  rfl

theorem answers_take {addr : PhysAddr} (more : self.curEntry < self.entryCount)
    (round : self.mapRound view = .take addr) :
    answers (nextFromMap view) self =
      prepend [addr] (answers (nextFromMap view) { self with curAddr := addr + pageSize }) := by
  apply answers_some
  rw [nextFromMap_loop more, nextFromMapLoop, round]

/-- Behind the last page boundary `align_up` wraps around. -/
theorem alignUp_top {x : Word} (top : 2 ^ 64 - 4096 < x.toNat) : alignUp x pageSize = 0 := by
  have mask : ~~~(pageSize - 1) = WordField.fieldMask 64 12 64 := by decide
  have sum : (x + pageSize - 1).toNat = x.toNat + 4095 - 2 ^ 64 := by
    have size : pageSize.toNat = 4096 := rfl
    have one : (1 : Word).toNat = 1 := rfl
    rw [BitVec.toNat_sub, BitVec.toNat_add, size, one]
    omega
  apply BitVec.eq_of_toNat_eq
  rw [alignUp, mask, WordField.toNat_and_fieldMask _ (by decide) (by decide), sum]
  change _ = 0
  omega

/-- A round at a usable well-formed entry, from the address at which it starts. -/
theorem mapRound_from (more : self.curEntry < self.entryCount)
    (usable : isUsable (view self.curEntry).memType = true)
    (fits : (view self.curEntry).base.toNat + (view self.curEntry).len.toNat < 2 ^ 64) :
    ∃ start : Word, start.toNat = self.roundStart view ∧
      self.mapRound view =
        if (alignUp start pageSize).toNat + 4096 < 2 ^ 64 then
          if (view self.curEntry).base.toNat + (view self.curEntry).len.toNat <
              (alignUp start pageSize).toNat + 4096 then .skip
          else .take (alignUp start pageSize)
        else .stop := by
  have inside : ¬ self.entryCount ≤ self.curEntry := Nat.not_le.mpr more
  have size : pageSize.toNat = 4096 := rfl
  obtain ⟨lastEq, last⟩ := @checkedAdd_eq _ _ fits
  refine ⟨if self.curAddr < (view self.curEntry).base then (view self.curEntry).base
    else self.curAddr, ?_, ?_⟩
  · rw [roundStart]
    split <;> rename_i order <;> rw [BitVec.lt_def] at order <;> omega
  rw [mapRound, entryAt, if_neg inside]
  simp only [usable, Bool.not_true, Bool.false_eq_true, if_false, lastEq]
  generalize alignUp (if self.curAddr < (view self.curEntry).base then
    (view self.curEntry).base else self.curAddr) pageSize = addr
  by_cases room : addr.toNat + 4096 < 2 ^ 64
  · obtain ⟨nextEq, next⟩ := @checkedAdd_eq addr pageSize room
    simp only [nextEq, if_pos room, gt_iff_lt, BitVec.lt_def, next, last, size]
  · rw [if_neg room, checkedAdd, size, if_neg room]

/-- The cursor stops at the last page of the address space. -/
theorem mapRound_low (more : self.curEntry < self.entryCount)
    (usable : isUsable (view self.curEntry).memType = true)
    (fits : (view self.curEntry).base.toNat + (view self.curEntry).len.toNat < 2 ^ 64)
    (low : self.roundStart view ≤ 2 ^ 64 - 4096) {n : Nat}
    (first : (self.roundStart view + 4095) / 4096 = n) :
    self.mapRound view =
      if n * 4096 = 2 ^ 64 - 4096 then .stop
      else if (view self.curEntry).base.toNat + (view self.curEntry).len.toNat <
        (n + 1) * 4096 then .skip
      else .take (pageFrame n) := by
  obtain ⟨start, startNat, round⟩ := mapRound_from more usable fits
  have aligned := @toNat_alignUp start (by omega)
  rw [startNat, first] at aligned
  have frame : alignUp start pageSize = pageFrame n := by
    apply BitVec.eq_of_toNat_eq
    rw [pageFrame, BitVec.toNat_ofNat]
    omega
  rw [round, aligned, frame, ← Nat.succ_mul]
  by_cases lastPage : n * 4096 = 2 ^ 64 - 4096
  · rw [if_pos lastPage, if_neg (by omega)]
  · rw [if_neg lastPage, if_pos (by omega)]

/-- Behind the start of that page it goes back to frame 0. -/
theorem mapRound_top (more : self.curEntry < self.entryCount)
    (usable : isUsable (view self.curEntry).memType = true)
    (fits : (view self.curEntry).base.toNat + (view self.curEntry).len.toNat < 2 ^ 64)
    (top : 2 ^ 64 - 4096 < (view self.curEntry).base.toNat) : self.mapRound view = .take 0 := by
  obtain ⟨start, startNat, round⟩ := mapRound_from more usable fits
  have high : 2 ^ 64 - 4096 < start.toNat := by
    rw [startNat]
    exact top.trans_le (Nat.le_max_right _ _)
  have zero : (0 : Word).toNat = 0 := rfl
  rw [round, alignUp_top high, zero, if_pos (by omega), if_neg (by omega)]

/-- The pages of a well-formed entry are given one by one.  Behind the last one the cursor
goes on with the next entry or stops for good. -/
theorem answers_entry (more : self.curEntry < self.entryCount)
    (usable : isUsable (view self.curEntry).memType = true)
    (fits : (view self.curEntry).base.toNat + (view self.curEntry).len.toNat < 2 ^ 64)
    (low : (view self.curEntry).base.toNat ≤ 2 ^ 64 - 4096)
    (here : CursorIn (view self.curEntry) self.curAddr.toNat) :
    answers (nextFromMap view) self =
      prepend (pagesIn (view self.curEntry) self.curAddr.toNat)
        (if Passes (view self.curEntry) then answers (nextFromMap view) self.skipEntry
          else fun _ => none) := by
  rw [CursorIn] at here
  -- the pages left become fewer with every one that is taken
  induction pages : pageNumbers (view self.curEntry) self.curAddr.toNat generalizing self with
  | nil =>
      rw [pagesIn_usable usable, pages, List.map_nil, prepend_nil]
      have full : (view self.curEntry).base.toNat + (view self.curEntry).len.toNat <
          ((self.roundStart view + 4095) / 4096 + 1) * 4096 := by
        by_contra room
        rw [pageNumbers_next (Nat.not_lt.mp room)] at pages
        cases pages
      have start : self.roundStart view =
          max self.curAddr.toNat (view self.curEntry).base.toNat := rfl
      have round := mapRound_low more usable fits (by omega) rfl
      by_cases lastPage : (self.roundStart view + 4095) / 4096 * 4096 = 2 ^ 64 - 4096
      · have stops : ¬ Passes (view self.curEntry) := not_passes usable (by omega)
        rw [if_pos lastPage] at round
        rw [if_neg stops]
        funext n
        exact answers_stop more round n
      · have passes : Passes (view self.curEntry) := by
          intro _
          omega
        rw [if_neg lastPage, if_pos full] at round
        rw [if_pos passes]
        exact answers_skip more round
  | cons n rest inductionHypothesis =>
      have start : self.roundStart view =
          max self.curAddr.toNat (view self.curEntry).base.toNat := rfl
      have room : ((self.roundStart view + 4095) / 4096 + 1) * 4096 ≤
          (view self.curEntry).base.toNat + (view self.curEntry).len.toNat := by
        by_contra full
        rw [pageNumbers_none (Nat.not_le.mp full)] at pages
        cases pages
      have same := pages
      rw [pageNumbers_next room] at same
      obtain ⟨first, left⟩ := List.cons.inj same
      rw [← start] at first left
      rw [first] at room left
      have round := mapRound_low more usable fits (by omega) first
      rw [if_neg (by omega), if_neg (by omega)] at round
      have next : (pageFrame n + pageSize).toNat = (n + 1) * 4096 := by
        rw [pageFrame, toNat_afterPage (by omega)]
        omega
      have later := @inductionHypothesis { self with curAddr := pageFrame n + pageSize }
        more usable fits low (by dsimp only; omega) (by rw [← left, ← next])
      have here : pagesIn (view self.curEntry) self.curAddr.toNat =
          [pageFrame n] ++ pagesIn (view self.curEntry) ((n + 1) * 4096) := by
        rw [pagesIn_usable usable, pagesIn_usable usable, pages, left, List.map_cons,
          List.singleton_append]
      rw [here, prepend_append, answers_take more round, later, skipEntry_curAddr]
      dsimp only
      rw [next]

/-- At an entry behind the last page boundary every call gives frame 0. -/
theorem answers_top (more : self.curEntry < self.entryCount)
    (usable : isUsable (view self.curEntry).memType = true)
    (fits : (view self.curEntry).base.toNat + (view self.curEntry).len.toNat < 2 ^ 64)
    (top : 2 ^ 64 - 4096 < (view self.curEntry).base.toNat) (n : Nat) :
    answers (nextFromMap view) self n = some 0 := by
  induction n generalizing self with
  | zero => rw [answers_take more (mapRound_top more usable fits top), prepend]
  | succ n inductionHypothesis =>
      rw [answers_take more (mapRound_top more usable fits top), prepend]
      exact @inductionHypothesis { self with curAddr := 0 + pageSize } more usable fits top

end

/-! ### The answers on a map -/

theorem mapView_append (front back : List MemMapEntry) (entry : MemMapEntry) :
    mapView (front ++ entry :: back) front.length = entry := by
  simp [mapView]

theorem pagesIn_high {entry : MemMapEntry} (formed : entry.wellFormed = true)
    (top : 2 ^ 64 - 4096 < entry.base.toNat) : pagesIn entry 0 = [] := by
  have fits := of_decide_eq_true formed
  rw [pagesIn, pageNumbers_none (by omega)]
  exact ite_self _

/-- At the start of an entry, the answers are the pages of the entries served from there, and
then always the same. -/
theorem answers_entries {front entries : List MemMapEntry} {self : BootPtAlloc}
    (position : self.curEntry = front.length) (start : self.curAddr = 0)
    (count : self.entryCount = (front ++ entries).length) :
    answers (nextFromMap (mapView (front ++ entries))) self =
      prepend (pagesOf (served entries))
        (fun _ => if wrapsAround entries then some 0 else none) := by
  induction entries generalizing front self with
  | nil =>
      funext n
      apply answers_end
      rw [count, position, List.append_nil]
  | cons entry entries inductionHypothesis =>
      have more : self.curEntry < self.entryCount := by
        rw [position, count, List.length_append, List.length_cons]
        omega
      have here : mapView (front ++ entry :: entries) self.curEntry = entry := by
        rw [position, mapView_append]
      have onward := @inductionHypothesis (front ++ [entry]) self.skipEntry
        (by rw [List.length_append, ← position]; rfl) rfl
        (by rw [List.append_assoc]; exact count)
      rw [List.append_assoc, List.singleton_append] at onward
      generalize mapView (front ++ entry :: entries) = view at here onward ⊢
      obtain rfl := here
      have inEntry : CursorIn (view self.curEntry) self.curAddr.toNat := by
        rw [start]
        exact .inl rfl
      have whole : self.curAddr.toNat = 0 := by
        rw [start]
        rfl
      rw [served, wrapsAround]
      cases usable : isUsable (view self.curEntry).memType with
      | false =>
          have passes : Passes (view self.curEntry) := fun isUsable => by simp [usable] at isUsable
          have round : self.mapRound view = .skip :=
            mapRound_of_checked (mapRoundChecked_unusable more usable)
          rw [if_pos passes, if_pos passes, pagesOf, List.flatMap_cons, pagesIn, usable]
          exact (answers_skip more round).trans onward
      | true =>
          cases formed : (view self.curEntry).wellFormed with
          | false =>
              have long := Nat.not_lt.mp (of_decide_eq_false formed)
              have stops : ¬ Passes (view self.curEntry) := not_passes usable (by omega)
              have round := mapRound_of_checked (mapRoundChecked_malformed more usable long)
              rw [if_neg stops, if_neg stops]
              funext n
              exact answers_stop more round n
          | true =>
              have fits := of_decide_eq_true formed
              by_cases top : 2 ^ 64 - 4096 < (view self.curEntry).base.toNat
              · have stops : ¬ Passes (view self.curEntry) := not_passes usable (by omega)
                rw [if_neg stops, if_neg stops, decide_eq_true top, if_pos rfl, pagesOf,
                  List.flatMap_singleton, pagesIn_high formed top, prepend_nil]
                funext n
                exact answers_top more usable fits top n
              · rw [answers_entry more usable fits (Nat.not_lt.mp top) inEntry, whole]
                by_cases passes : Passes (view self.curEntry)
                · rw [if_pos passes, if_pos passes, if_pos passes, onward, pagesOf, pagesOf,
                    List.flatMap_cons, prepend_append]
                · rw [if_neg passes, if_neg passes, if_neg passes, decide_eq_false top, if_pos rfl,
                    pagesOf, List.flatMap_singleton]
                  rfl

/-- The calls of `next_from_map` on a new allocator. -/
theorem frameAt_eq {boot : BootInfo} {alloc : BootPtAlloc} {entries : List MemMapEntry}
    (created : BootPtAlloc.new boot = some alloc)
    (count : boot.mem.entryCount.toNat = entries.length) :
    frameAt alloc entries =
      prepend (pagesOf (served entries))
        (fun _ => if wrapsAround entries then some 0 else none) := by
  obtain ⟨position, start⟩ := bootPtAlloc_new_start created
  have size := (@bootPtAlloc_new_cursor (mapView entries) _ _ created).1
  exact @answers_entries [] entries alloc position start (size.trans count)

/-! ### One more entry in the map -/

section

variable {before after rest : List MemMapEntry} {entry : MemMapEntry}

theorem served_append_passed (passes : ∀ good ∈ before, Passes good) :
    served (before ++ rest) = before ++ served rest ∧
      wrapsAround (before ++ rest) = wrapsAround rest := by
  induction before with
  | nil => exact ⟨rfl, rfl⟩
  | cons first before inductionHypothesis =>
      rw [List.forall_mem_cons] at passes
      obtain ⟨same, wraps⟩ := inductionHypothesis passes.2
      rw [List.cons_append, served, wrapsAround, if_pos passes.1, if_pos passes.1, same, wraps]
      exact ⟨rfl, rfl⟩

/-- Behind an entry that stops the cursor nothing matters. -/
theorem served_append_stopped (stopped : ∃ good ∈ before, ¬ Passes good) :
    served (before ++ rest) = served before ∧
      wrapsAround (before ++ rest) = wrapsAround before := by
  induction before with
  | nil => simp at stopped
  | cons first before inductionHypothesis =>
      rw [List.cons_append, served, served, wrapsAround, wrapsAround]
      by_cases passes : Passes first
      · rw [List.exists_mem_cons_iff, or_iff_right (not_not.mpr passes)] at stopped
        obtain ⟨same, wraps⟩ := inductionHypothesis stopped
        rw [if_pos passes, if_pos passes, if_pos passes, if_pos passes, same, wraps]
        exact ⟨rfl, rfl⟩
      · rw [if_neg passes, if_neg passes, if_neg passes, if_neg passes]
        exact ⟨rfl, rfl⟩

theorem served_of_passed (passes : ∀ good ∈ before, Passes good) :
    served before = before ∧ wrapsAround before = false := by
  have whole := @served_append_passed before [] passes
  rw [List.append_nil] at whole
  exact ⟨whole.1.trans (List.append_nil _), whole.2⟩

/-- A map with a malformed usable entry is read like the map that ends in front of it. -/
theorem served_malformed (malformed : entry.wellFormed = false)
    (usable : isUsable entry.memType = true) :
    served (before ++ entry :: after) = served before ∧
      wrapsAround (before ++ entry :: after) = wrapsAround before := by
  by_cases passes : ∀ good ∈ before, Passes good
  · have long := Nat.not_lt.mp (of_decide_eq_false malformed)
    have stops : ¬ Passes entry := not_passes usable (by omega)
    obtain ⟨same, wraps⟩ := @served_append_passed _ (entry :: after) passes
    obtain ⟨all, straight⟩ := served_of_passed passes
    rw [same, wraps, all, straight, served, wrapsAround, if_neg stops, if_neg stops, malformed]
    exact ⟨List.append_nil _, rfl⟩
  · push Not at passes
    exact served_append_stopped passes

/-- An entry that is not usable changes nothing. -/
theorem served_unusable (unusable : isUsable entry.memType = false) :
    pagesOf (served (before ++ entry :: after)) = pagesOf (served (before ++ after)) ∧
      wrapsAround (before ++ entry :: after) = wrapsAround (before ++ after) := by
  by_cases passes : ∀ good ∈ before, Passes good
  · have passed : Passes entry := fun usable => by simp [unusable] at usable
    have noPages : pagesIn entry 0 = [] := by simp [pagesIn, unusable]
    obtain ⟨sameWith, wrapsWith⟩ := @served_append_passed _ (entry :: after) passes
    obtain ⟨same, wraps⟩ := @served_append_passed _ after passes
    rw [sameWith, wrapsWith, same, wraps, served, wrapsAround, if_pos passed, if_pos passed]
    simp [pagesOf, noPages]
  · push Not at passes
    obtain ⟨sameWith, wrapsWith⟩ := @served_append_stopped _ (entry :: after) passes
    obtain ⟨same, wraps⟩ := @served_append_stopped _ after passes
    rw [sameWith, wrapsWith, same, wraps]
    exact ⟨rfl, rfl⟩

/-- What is behind the entries in front changes no answer exactly if it has no pages for the
cursor. -/
theorem prepend_served_iff :
    (prepend (pagesOf (served before)) fun _ => if wrapsAround before then some (0 : PhysAddr)
        else none) =
      (prepend (pagesOf (served (before ++ after))) fun _ =>
        if wrapsAround (before ++ after) then some 0 else none) ↔
    pagesOf (served (before ++ after)) = pagesOf (served before) ∧
      wrapsAround (before ++ after) = wrapsAround before := by
  constructor
  · intro same
    by_cases passes : ∀ good ∈ before, Passes good
    · obtain ⟨all, straight⟩ := served_of_passed passes
      obtain ⟨split, wraps⟩ := @served_append_passed _ after passes
      rw [split, wraps, all, straight, pagesOf, pagesOf, List.flatMap_append,
        prepend_append] at same
      obtain ⟨noPages, ended⟩ := eq_nil_of_prepend_none (prepend_cancel same).symm
      rw [split, wraps, all, straight, pagesOf, pagesOf, List.flatMap_append, noPages]
      refine ⟨List.append_nil _, Bool.eq_false_iff.mpr fun around => ?_⟩
      rw [if_pos around] at ended
      cases ended
    · push Not at passes
      obtain ⟨split, wraps⟩ := @served_append_stopped _ after passes
      rw [split, wraps]
      exact ⟨rfl, rfl⟩
  · rintro ⟨pages, wraps⟩
    rw [pages, wraps]

end

/-! ### The lookup stops at a malformed entry -/

theorem physAvailable_malformed {phys : Word} {entry : MemMapEntry}
    (malformed : entry.wellFormed = false) (entries : List MemMapEntry) :
    physAvailable phys (entry :: entries) = none := by
  rw [physAvailable, checkedAdd, if_neg (of_decide_eq_false malformed)]
  rfl

theorem physAvailable_eq_none {phys : Word} {entries : List MemMapEntry} :
    physAvailable phys entries = none ↔
      ∀ entry ∈ scanned entries, ¬ entry.Covers phys.toNat := by
  induction entries with
  | nil => simp [physAvailable, scanned]
  | cons first entries inductionHypothesis =>
      cases fits : first.wellFormed with
      | false =>
          rw [physAvailable_malformed fits, scanned, List.takeWhile_cons_of_neg (by simp [fits])]
          simp
      | true =>
          rw [scanned, List.takeWhile_cons_of_pos fits, List.forall_mem_cons]
          by_cases covers : first.Covers phys.toNat
          · rw [(physAvailable_covered (of_decide_eq_true fits) covers).1]
            simp [covers]
          · rw [physAvailable_uncovered (of_decide_eq_true fits) covers, inductionHypothesis]
            simp [covers, scanned]

/-- Entries behind the others are seen only where those find nothing. -/
theorem physAvailable_append {phys : Word} {before after : List MemMapEntry}
    (unseen : physAvailable phys before = none → physAvailable phys after = none) :
    physAvailable phys (before ++ after) = physAvailable phys before := by
  induction before with
  | nil => exact unseen rfl
  | cons first before inductionHypothesis =>
      rw [List.cons_append]
      cases fits : first.wellFormed with
      | false => rw [physAvailable_malformed fits, physAvailable_malformed fits]
      | true =>
          have fits := of_decide_eq_true fits
          by_cases covers : first.Covers phys.toNat
          · rw [(physAvailable_covered fits covers).1, (physAvailable_covered fits covers).1]
          · rw [physAvailable_uncovered fits covers] at unseen ⊢
            rw [physAvailable_uncovered fits covers, inductionHypothesis unseen]

/-! ### Malformed entries that hide nothing -/

/-- The malformed entry between `before` and `after` changes neither the frames nor the
lookup, and both give up only when no well-formed entry serves.  `allocWith` is the allocator
of the map with the entry. -/
structure HidesNothing (alloc allocWith : BootPtAlloc) (before : List MemMapEntry)
    (entry : MemMapEntry) (after : List MemMapEntry) : Prop where
  frames : ∀ n, frameAt allocWith (before ++ entry :: after) n = frameAt alloc (before ++ after) n
  available : ∀ phys,
    physAvailable phys (before ++ entry :: after) = physAvailable phys (before ++ after)
  pagesGiven : ∀ n, frameAt allocWith (before ++ entry :: after) n = none →
    ∀ good ∈ before ++ after, good.wellFormed = true → ∀ f ∈ pagesIn good 0,
      ∃ k < n, frameAt allocWith (before ++ entry :: after) k = some f
  found : ∀ phys, physAvailable phys (before ++ entry :: after) = none →
    ∀ good ∈ before ++ after, good.wellFormed = true → ¬ good.Covers phys.toNat

section

variable {before after : List MemMapEntry} {entry good : MemMapEntry}

theorem physAvailable_insert_eq_none (malformed : entry.wellFormed = false) (phys : Word) :
    physAvailable phys (before ++ entry :: after) = none ↔
      ∀ other ∈ scanned before, ¬ other.Covers phys.toNat := by
  rw [physAvailable_eq_none, scanned, takeWhile_append_failing malformed]
  rfl

/-- An address of a well-formed entry is looked up in vain exactly if no entry in front of
the malformed one has it. -/
theorem found_iff (malformed : entry.wellFormed = false) (formed : good.wellFormed = true) :
    (∀ phys, physAvailable phys (before ++ entry :: after) = none → ¬ good.Covers phys.toNat) ↔
      ∀ x, good.Covers x → ∃ found ∈ scanned before, found.Covers x := by
  constructor
  · intro found x covers
    by_contra unfound
    have phys : (BitVec.ofNat 64 x).toNat = x := by
      rw [BitVec.toNat_ofNat]
      exact Nat.mod_eq_of_lt (covers.2.trans (of_decide_eq_true formed))
    apply found (BitVec.ofNat 64 x)
    · rw [physAvailable_insert_eq_none malformed, phys]
      exact fun other inFront covered => unfound ⟨other, inFront, covered⟩
    · rw [phys]
      exact covers
  · intro addresses phys nothing covers
    obtain ⟨other, inFront, covered⟩ := addresses _ covers
    exact (physAvailable_insert_eq_none malformed phys).mp nothing other inFront covered

/-- If no address is looked up in vain, the entries behind the malformed one add nothing. -/
theorem physAvailable_insert (malformed : entry.wellFormed = false) {phys : Word}
    (found : physAvailable phys (before ++ entry :: after) = none →
      ∀ good ∈ before ++ after, good.wellFormed = true → ¬ good.Covers phys.toNat) :
    physAvailable phys (before ++ entry :: after) = physAvailable phys (before ++ after) := by
  have behind : physAvailable phys before = none →
      physAvailable phys (entry :: after) = none :=
    fun _ => physAvailable_malformed malformed after
  rw [physAvailable_append behind, physAvailable_append]
  intro nothing
  rw [physAvailable_eq_none]
  intro good inFront
  apply found _ good
  · exact List.mem_append_right _ (List.takeWhile_subset _ inFront)
  · exact List.all_eq_true.mp List.all_takeWhile good inFront
  · rw [physAvailable_append behind]
    exact nothing

end

section

variable {boot bootWith : BootInfo} {alloc allocWith : BootPtAlloc}
  {before after : List MemMapEntry} {entry : MemMapEntry}

/-- The frames stay the same exactly if a usable malformed entry has no pages behind it. -/
theorem frames_iff (created : BootPtAlloc.new boot = some alloc)
    (count : boot.mem.entryCount.toNat = (before ++ after).length)
    (createdWith : BootPtAlloc.new bootWith = some allocWith)
    (countWith : bootWith.mem.entryCount.toNat = (before ++ entry :: after).length)
    (malformed : entry.wellFormed = false) :
    (∀ n, frameAt allocWith (before ++ entry :: after) n = frameAt alloc (before ++ after) n) ↔
      (isUsable entry.memType = true →
        pagesOf (served (before ++ after)) = pagesOf (served before) ∧
          wrapsAround (before ++ after) = wrapsAround before) := by
  rw [← funext_iff, frameAt_eq created count, frameAt_eq createdWith countWith]
  cases usable : isUsable entry.memType with
  | false =>
      obtain ⟨pages, wraps⟩ := @served_unusable before after entry usable
      rw [pages, wraps]
      simp
  | true =>
      obtain ⟨same, wraps⟩ := @served_malformed before after entry malformed usable
      rw [same, wraps, prepend_served_iff]
      simp

/-- A page is given before the answers end exactly if it is among those served, or they never
end. -/
theorem pageGiven_iff (createdWith : BootPtAlloc.new bootWith = some allocWith)
    {entries : List MemMapEntry} (countWith : bootWith.mem.entryCount.toNat = entries.length)
    (f : PhysAddr) :
    (∀ n, frameAt allocWith entries n = none → ∃ k < n, frameAt allocWith entries k = some f) ↔
      wrapsAround entries = true ∨ f ∈ pagesOf (served entries) := by
  rw [frameAt_eq createdWith countWith]
  cases wrapsAround entries with
  | true =>
      rw [if_pos rfl]
      refine iff_of_true (fun n ended => ?_) (.inl rfl)
      exact absurd ended (prepend_some_ne_none _ _ n)
  | false =>
      rw [if_neg Bool.false_ne_true, given_before_none_iff (prepend_none _)]
      simp

/-- A malformed entry hides nothing exactly if no page and no address of a well-formed entry is
found behind it only.  The map is any list of entries; where the cursor stops by itself, or goes
back to frame 0 for ever, what is behind is not reached anyway. -/
theorem hidesNothing_iff (created : BootPtAlloc.new boot = some alloc)
    (count : boot.mem.entryCount.toNat = (before ++ after).length)
    (createdWith : BootPtAlloc.new bootWith = some allocWith)
    (countWith : bootWith.mem.entryCount.toNat = (before ++ entry :: after).length)
    (malformed : 2 ^ 64 ≤ entry.base.toNat + entry.len.toNat) :
    HidesNothing alloc allocWith before entry after ↔
      (isUsable entry.memType = true →
        pagesOf (served (before ++ after)) = pagesOf (served before) ∧
          wrapsAround (before ++ after) = wrapsAround before) ∧
      (∀ good ∈ before ++ after, good.wellFormed = true → ∀ f ∈ pagesIn good 0,
        wrapsAround (before ++ entry :: after) = true ∨
          f ∈ pagesOf (served (before ++ entry :: after))) ∧
      ∀ good ∈ before ++ after, good.wellFormed = true → ∀ x, good.Covers x →
        ∃ found ∈ scanned before, found.Covers x := by
  have notFormed : entry.wellFormed = false := decide_eq_false (Nat.not_lt.mpr malformed)
  have frames := frames_iff created count createdWith countWith notFormed
  have given := fun f => pageGiven_iff createdWith countWith f
  constructor
  · rintro ⟨sameFrames, -, pagesGiven, found⟩
    refine ⟨frames.mp sameFrames, ?_, ?_⟩
    · intro good among formed f page
      apply (given f).mp
      exact fun n ended => pagesGiven n ended good among formed f page
    · intro good among formed
      apply (found_iff notFormed formed).mp
      exact fun phys nothing => found phys nothing good among formed
  · rintro ⟨pagesBehind, pages, addresses⟩
    have found : ∀ phys, physAvailable phys (before ++ entry :: after) = none →
        ∀ good ∈ before ++ after, good.wellFormed = true → ¬ good.Covers phys.toNat := by
      intro phys nothing good among formed
      exact (found_iff notFormed formed).mpr (addresses good among formed) phys nothing
    refine ⟨frames.mpr pagesBehind, fun phys => physAvailable_insert notFormed (found phys), ?_,
      found⟩
    intro n ended good among formed f page
    exact (given f).mpr (pages good among formed f page) n ended

end

/-- A usable entry that exceeds 64 bits. -/
def wrappingEntry : MemMapEntry :=
  { base := 0xfffffffffffff000, len := 0x2000, memType := .usable, flags := 0 }

/-- A hundred bytes in front of the last page, at which the cursor stops by itself. -/
def stoppingEntry : MemMapEntry :=
  { base := 0xffffffffffffec78, len := 100, memType := .usable, flags := 0 }

/-- The boot information for a map of `n` entries, and the allocator made from it. -/
def bootWithEntries (n : Nat) : BootInfo :=
  { tinyBoot with mem := { tinyBoot.mem with entryCount := BitVec.ofNat 32 n } }

def cursorStart (n : Nat) : BootPtAlloc := { tinyAlloc with entryCount := n }

theorem new_bootWithEntries {n : Nat} (positive : 0 < n) (fits : n < 2 ^ 32) :
    BootPtAlloc.new (bootWithEntries n) = some (cursorStart n) := by
  have count : (BitVec.ofNat 32 n).toNat = n := by
    rw [BitVec.toNat_ofNat]
    omega
  have counted : (BitVec.ofNat 32 n == 0) = false := by
    rw [beq_eq_false_iff_ne]
    intro zero
    rw [zero] at count
    change 0 = n at count
    omega
  have size : (tinyBoot.mem.entrySize.toNat != memMapEntrySize) = false := by decide
  have mapped : (tinyBoot.mem.entriesPtr == 0) = false := by decide
  have direct : (tinyBoot.hhdmOffset == 0) = false := by decide
  simp only [BootPtAlloc.new, bootWithEntries, counted, size, mapped, direct, Bool.or_false,
    Bool.false_eq_true, if_false, count]
  rfl

/-- At the end of the map it hides nothing. -/
theorem hidesNothing_last :
    HidesNothing (cursorStart 2) (cursorStart 3) [crowdedEntry, stoppingEntry] wrappingEntry
      [] := by
  have created := @new_bootWithEntries 2 (by decide) (by decide)
  have createdWith := @new_bootWithEntries 3 (by decide) (by decide)
  have all : served ([crowdedEntry, stoppingEntry] ++ [wrappingEntry]) =
      [crowdedEntry, stoppingEntry] := by decide
  have inFront : scanned [crowdedEntry, stoppingEntry] = [crowdedEntry, stoppingEntry] := by
    decide
  apply (hidesNothing_iff created rfl createdWith rfl (by decide)).mpr
  refine ⟨fun _ => ⟨rfl, rfl⟩, ?_, ?_⟩
  · intro good among _ f page
    rw [all]
    exact .inr (List.mem_flatMap.mpr ⟨good, among, page⟩)
  · intro good among _ x covers
    rw [inFront]
    exact ⟨good, among, covers⟩

/-- In front of the others it hides them: no frame is given, no address is found. -/
theorem malformed_first :
    BootPtAlloc.new (bootWithEntries 1) = some (cursorStart 1) ∧
      BootPtAlloc.new (bootWithEntries 2) = some (cursorStart 2) ∧
      frameAt (cursorStart 1) [crowdedEntry] 0 = some 0x200000 ∧
      frameAt (cursorStart 2) [wrappingEntry, crowdedEntry] 0 = none ∧
      physAvailable 0x200000 [crowdedEntry] = some crowdedEntry.len ∧
      physAvailable 0x200000 [wrappingEntry, crowdedEntry] = none ∧
      ¬ HidesNothing (cursorStart 1) (cursorStart 2) [] wrappingEntry [crowdedEntry] := by
  have without : frameAt (cursorStart 1) [crowdedEntry] 0 = some 0x200000 := by decide +kernel
  have withIt : frameAt (cursorStart 2) [wrappingEntry, crowdedEntry] 0 = none := by
    decide +kernel
  refine ⟨new_bootWithEntries (by decide) (by decide), new_bootWithEntries (by decide) (by decide),
    without, withIt, by decide +kernel, by decide +kernel, ?_⟩
  intro hidesNothing
  have same := hidesNothing.frames 0
  rw [List.nil_append, List.nil_append, withIt, without] at same
  cases same

end RincOs
