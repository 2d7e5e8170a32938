/-
Module: RincOs.Proofs.Recorder
Purpose: An allocator that behaves as another one and records its answers, so
  that a result can be traced back to the allocations made during the call.
Trusted boundary: none
Main exports:
  Recorded, answersDuring, ensurePath_answers, map4k_outOfMemory_iff
-/
import RincOs.Proofs.Operations

namespace RincOs

open LawfulFrameAlloc

variable {A : Type}

/-- An allocator with the list of answers it gave, oldest first. -/
structure Recorded (A : Type) where
  inner : A
  answers : List (Option PhysAddr)

section

variable [PageTableFrameAlloc A]

instance : PageTableFrameAlloc (Recorded A) where
  allocFrame4k a m :=
    match allocFrame4k a.inner m with
    | (answer, inner, m') => (answer, ⟨inner, a.answers ++ [answer]⟩, m')
  freeFrame4k a f := ⟨freeFrame4k a.inner f, a.answers⟩

theorem recorded_alloc {a a' : Recorded A} {m m' : Mem} {answer : Option PhysAddr}
    (alloc : allocFrame4k a m = (answer, a', m')) :
    allocFrame4k a.inner m = (answer, a'.inner, m') ∧
      a'.answers = a.answers ++ [answer] := by
  change (match allocFrame4k a.inner m with
    | (answer, inner, m') => (answer, (⟨inner, a.answers ++ [answer]⟩ : Recorded A), m'))
    = (answer, a', m') at alloc
  rcases inner : allocFrame4k a.inner m with ⟨r, b, n⟩
  rw [inner] at alloc
  obtain ⟨rfl, rfl, rfl⟩ := alloc
  exact ⟨rfl, rfl⟩

/-- Recording changes nothing a client can rely on. -/
instance [LawfulFrameAlloc A] : LawfulFrameAlloc (Recorded A) where
  Valid a := Valid a.inner
  Held a := Held a.inner
  alloc_none valid alloc := alloc_none valid (recorded_alloc alloc).1
  alloc_some valid alloc := alloc_some valid (recorded_alloc alloc).1
  free valid held := LawfulFrameAlloc.free valid held

/-- The answers given between two states of one run. -/
def answersDuring (s s' : Sys (Recorded A)) : List (Option PhysAddr) :=
  s'.ptAlloc.answers.drop s.ptAlloc.answers.length

/-- The answers of a descent: some frames, and a refusal at the end exactly if
the descent failed. -/
def DescentAnswers {α : Type} (s : Sys (Recorded A)) :
    Except MapError α × Sys (Recorded A) → Prop
  | (.ok _, s') => ∃ frames : List PhysAddr,
      s'.ptAlloc.answers = s.ptAlloc.answers ++ frames.map some
  | (.error e, s') => e = .outOfMemory ∧ ∃ frames : List PhysAddr,
      s'.ptAlloc.answers = s.ptAlloc.answers ++ frames.map some ++ [none]

theorem ensureTable_answers (parent : PhysAddr) (i : Fin entryCount) (user : Bool)
    (s : Sys (Recorded A)) :
    DescentAnswers s ((ensureTable parent i user).exec s) := by
  rw [ensureTable_exec]
  split
  · exact ⟨[], by simp⟩
  · rcases alloc : allocFrame4k s.ptAlloc s.mem with ⟨_ | f, al, m⟩
    · exact ⟨rfl, [], by simpa using (recorded_alloc alloc).2⟩
    · exact ⟨[f], by simpa using (recorded_alloc alloc).2⟩

theorem ensurePath_answers (user : Bool) (t : PhysAddr) (path : List (Fin entryCount))
    (s : Sys (Recorded A)) :
    DescentAnswers s ((ensurePath user t path).exec s) := by
  induction path generalizing s t with
  | nil => exact ⟨[], by simp⟩
  | cons i path inductionHypothesis =>
      have first := ensureTable_answers t i user s
      rw [ensurePath, MmuM.exec_bind]
      generalize (ensureTable t i user).exec s = outcome at first ⊢
      obtain ⟨e | child, s₁⟩ := outcome
      · exact first
      · obtain ⟨frames, early⟩ := first
        have onward := inductionHypothesis child s₁
        dsimp only
        generalize (ensurePath user child path).exec s₁ = outcome at onward ⊢
        obtain ⟨e | pt, s₂⟩ := outcome
        · obtain ⟨memory, more, late⟩ := onward
          exact ⟨memory, frames ++ more, by simp [late, early]⟩
        · obtain ⟨more, late⟩ := onward
          exact ⟨frames ++ more, by simp [late, early]⟩

/-- `map_4k` returns `OutOfMemory` exactly if an allocation it made failed. -/
theorem map4k_outOfMemory_iff {aspace : AddressSpace} {v : VirtAddr} {p : PhysAddr}
    {flags : MapFlags} {s s' : Sys (Recorded A)} {result : Except MapError PUnit}
    (ran : (map4k aspace v p flags).exec s = (result, s')) :
    result = .error .outOfMemory ↔ none ∈ answersDuring s s' := by
  rw [map4k_exec] at ran
  split at ran
  · cases ran
    simp [answersDuring]
  · split at ran
    · cases ran
      simp [answersDuring]
    · have descent := ensurePath_answers (flags.contains .user)
        (s.asX86 aspace).pml4Phys (tablePath v) s
      generalize (ensurePath _ _ (tablePath v)).exec s = outcome at descent ran
      obtain ⟨e | pt, s₁⟩ := outcome
      · obtain ⟨rfl, frames, answers⟩ := descent
        cases ran
        simp [answersDuring, answers]
      · obtain ⟨frames, answers⟩ := descent
        -- writing the leaf entry asks for no frame
        dsimp only at ran
        rw [mapLeaf] at ran
        split at ran <;> cases ran <;> simp [answersDuring, answers]

end

end RincOs
