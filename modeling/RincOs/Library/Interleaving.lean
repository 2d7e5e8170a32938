/-
Module: RincOs.Library.Interleaving
Purpose: Programs that run one action at a time on a shared state made of cells.
  If every program keeps to its own cells, then any interleaving of them can be
  completed to the state that running them one after the other, in the order
  they were started, leads to.
Trusted boundary: none
Main exports:
  Prog, Prog.run, AgreeOn, Footprint, Confined, Confined.bind, Flight, Completes,
  Completes.launch, Completes.advance, Completes.result_unseen, Completes.land
-/
import Mathlib.Data.Set.Lattice
import Mathlib.Logic.Function.Basic

namespace Interleaving

/-! ### Programs -/

/-- A finite program over a state.  What comes after an action depends on the
state the action found. -/
inductive Prog (σ α : Type) : Type where
  | done (result : α)
  | step (act : σ → σ) (next : σ → Prog σ α)

namespace Prog

variable {σ α β : Type}

/-- The whole program without interruption. -/
def run : Prog σ α → σ → α × σ
  | done result, s => (result, s)
  | step act next, s => (next s).run (act s)

def bind : Prog σ α → (α → Prog σ β) → Prog σ β
  | done result, rest => rest result
  | step act next, rest => step act fun s => (next s).bind rest

instance : Monad (Prog σ) where
  pure := done
  bind := bind

/-- A single action with a result. -/
def atomic (f : σ → α × σ) : Prog σ α :=
  step (fun s => (f s).2) fun s => done (f s).1

@[simp] theorem run_pure (a : α) (s : σ) : (pure a : Prog σ α).run s = (a, s) := rfl

@[simp] theorem run_atomic (f : σ → α × σ) (s : σ) : (atomic f).run s = f s := rfl

@[simp] theorem run_bind (p : Prog σ α) (rest : α → Prog σ β) (s : σ) :
    (p >>= rest).run s = (rest (p.run s).1).run (p.run s).2 := by
  induction p generalizing s with
  | done result => rfl
  | step act next inductionHypothesis => exact inductionHypothesis s (act s)

@[simp] theorem run_ite (c : Prop) [Decidable c] (p q : Prog σ α) (s : σ) :
    (if c then p else q).run s = if c then p.run s else q.run s :=
  apply_ite (fun program => run program s) c p q

end Prog

/-! ### Cells and footprints -/

section

variable {σ L : Type} {V : L → Type} (cells : σ → (l : L) → V l)

/-- The second state has the values of the first in the given cells. -/
def AgreeOn (region : Set L) (s s' : σ) : Prop := ∀ l ∈ region, cells s' l = cells s l

/-- The cells a program may read, and among them those it may write. -/
structure Footprint (L : Type) where
  reads : Set L
  writes : Set L
  writes_subset : writes ⊆ reads

/-- Neither of two footprints writes what the other reads. -/
def Footprint.Apart (one two : Footprint L) : Prop :=
  (∀ l ∈ one.writes, l ∉ two.reads) ∧ ∀ l ∈ two.writes, l ∉ one.reads

/-- Run from `s`, every action of the program depends on the cells of `reads` only
and changes cells of `writes` only. -/
def Confined {α : Type} (fp : Footprint L) : Prog σ α → σ → Prop
  | .done _, _ => True
  | .step act next, s =>
      (∀ s', AgreeOn cells fp.reads s s' →
        next s' = next s ∧ AgreeOn cells fp.writes (act s) (act s') ∧
          AgreeOn cells fp.writesᶜ s' (act s')) ∧
        Confined fp (next s) (act s)

end

section

variable {σ L α β : Type} {V : L → Type} {cells : σ → (l : L) → V l}
variable {region : Set L} {fp : Footprint L} {p : Prog σ α} {s s' s'' : σ}

theorem AgreeOn.refl (s : σ) : AgreeOn cells region s s := fun _ _ => rfl

theorem AgreeOn.symm (same : AgreeOn cells region s s') : AgreeOn cells region s' s :=
  fun l inside => (same l inside).symm

theorem AgreeOn.trans (one : AgreeOn cells region s s') (two : AgreeOn cells region s' s'') :
    AgreeOn cells region s s'' :=
  fun l inside => (two l inside).trans (one l inside)

theorem AgreeOn.mono {part : Set L} (same : AgreeOn cells region s s') (sub : part ⊆ region) :
    AgreeOn cells part s s' :=
  fun l inside => same l (sub inside)

/-- An action that is the same on the cells it writes, and changes no others, keeps
an agreement. -/
theorem AgreeOn.after {act : σ → σ} (same : AgreeOn cells fp.reads s s')
    (written : AgreeOn cells fp.writes (act s) (act s'))
    (here : AgreeOn cells fp.writesᶜ s (act s)) (there : AgreeOn cells fp.writesᶜ s' (act s')) :
    AgreeOn cells fp.reads (act s) (act s') := by
  intro l inside
  by_cases write : l ∈ fp.writes
  · exact written l write
  · rw [there l write, here l write]
    exact same l inside

/-- Confinement does not depend on the cells that are not read. -/
theorem Confined.of_agree (confined : Confined cells fp p s)
    (same : AgreeOn cells fp.reads s s') : Confined cells fp p s' := by
  induction p generalizing s s' with
  | done result => trivial
  | step act next inductionHypothesis =>
      obtain ⟨local', onward⟩ := confined
      obtain ⟨sameNext, written, outside⟩ := local' s' same
      have after := same.after written (local' s (.refl s)).2.2 outside
      refine ⟨fun s'' same' => ?_, ?_⟩
      · obtain ⟨next', written', outside'⟩ := local' s'' (same.trans same')
        exact ⟨next'.trans sameNext.symm, written.symm.trans written', outside'⟩
      · rw [sameNext]
        exact inductionHypothesis s onward after

/-- A confined program does the same in any state that agrees on what it reads. -/
theorem Confined.run_agree (confined : Confined cells fp p s)
    (same : AgreeOn cells fp.reads s s') :
    (p.run s').1 = (p.run s).1 ∧ AgreeOn cells fp.reads (p.run s).2 (p.run s').2 := by
  induction p generalizing s s' with
  | done result => exact ⟨rfl, same⟩
  | step act next inductionHypothesis =>
      obtain ⟨local', onward⟩ := confined
      obtain ⟨sameNext, written, outside⟩ := local' s' same
      have after := same.after written (local' s (.refl s)).2.2 outside
      simp only [Prog.run, sameNext]
      exact inductionHypothesis s onward after

theorem Confined.run_outside (confined : Confined cells fp p s) :
    AgreeOn cells fp.writesᶜ s (p.run s).2 := by
  induction p generalizing s with
  | done result => exact .refl s
  | step act next inductionHypothesis =>
      obtain ⟨local', onward⟩ := confined
      exact (local' s (.refl s)).2.2.trans (inductionHypothesis s onward)

/-! Rules for the programs of the monad. -/

@[simp] theorem confined_pure (a : α) (s : σ) : Confined cells fp (pure a : Prog σ α) s :=
  trivial

theorem confined_atomic {f : σ → α × σ}
    (act : ∀ s', AgreeOn cells fp.reads s s' →
      (f s').1 = (f s).1 ∧ AgreeOn cells fp.writes (f s).2 (f s').2 ∧
        AgreeOn cells fp.writesᶜ s' (f s').2) :
    Confined cells fp (Prog.atomic f) s :=
  ⟨fun s' same => ⟨congrArg Prog.done (act s' same).1, (act s' same).2⟩, trivial⟩

/-- An action that only reads. -/
theorem confined_read {f : σ → α}
    (reads : ∀ s', AgreeOn cells fp.reads s s' → f s' = f s) :
    Confined cells fp (Prog.atomic fun s => (f s, s)) s :=
  confined_atomic fun s' same => ⟨reads s' same, same.mono fp.writes_subset, .refl s'⟩

theorem Confined.bind {rest : α → Prog σ β} (first : Confined cells fp p s)
    (second : Confined cells fp (rest (p.run s).1) (p.run s).2) :
    Confined cells fp (p >>= rest) s := by
  induction p generalizing s with
  | done result => exact second
  | step act next inductionHypothesis =>
      obtain ⟨local', onward⟩ := first
      refine ⟨fun s' same => ?_, inductionHypothesis s onward second⟩
      obtain ⟨sameNext, changes⟩ := local' s' same
      exact ⟨congrArg (fun program => Prog.bind program rest) sameNext, changes⟩

end

/-! ### Programs in flight -/

/-- A program under way, with the cells it keeps to. -/
structure Flight (σ α L : Type) where
  prog : Prog σ α
  footprint : Footprint L

section

variable {σ L α ι : Type} {V : L → Type} (cells : σ → (l : L) → V l)

/-- The programs in flight keep to cells of their own, and `t` is the state in which
all of them have come to their end: the cells a program may write are as if it had
been alone, and all other cells are as they are now. -/
structure Completes (pool : ι → Option (Flight σ α L)) (s t : σ) : Prop where
  confined : ∀ {i f}, pool i = some f → Confined cells f.footprint f.prog s
  apart : ∀ {i j f g}, pool i = some f → pool j = some g → i ≠ j →
    f.footprint.Apart g.footprint
  written : ∀ {i f}, pool i = some f → AgreeOn cells f.footprint.writes (f.prog.run s).2 t
  rest : ∀ l, (∀ i f, pool i = some f → l ∉ f.footprint.writes) → cells t l = cells s l

end

section

variable {σ L α ι : Type} {V : L → Type} {cells : σ → (l : L) → V l}
variable {pool : ι → Option (Flight σ α L)} {s t : σ} {i : ι}

theorem Completes.nothing (empty : ∀ i, pool i = none) (s : σ) : Completes cells pool s s where
  confined known := by simp [empty] at known
  apart known := by simp [empty] at known
  written known := by simp [empty] at known
  rest _ _ := rfl

/-- With nothing in flight the state is complete. -/
theorem Completes.eq (completes : Completes cells pool s t)
    (injective : Function.Injective cells) (empty : ∀ i, pool i = none) : t = s := by
  apply injective
  funext l
  apply completes.rest
  intro i f known
  simp [empty] at known

/-- What nobody in flight writes has its final value. -/
theorem Completes.agree (completes : Completes cells pool s t) {region : Set L}
    (free : ∀ i f, pool i = some f → ∀ l ∈ f.footprint.writes, l ∉ region) :
    AgreeOn cells region s t := by
  intro l inside
  apply completes.rest
  exact fun i f known write => free i f known l write inside

variable [DecidableEq ι]

/-- A program in flight after one was put into the pool is this one or was there. -/
theorem flying_update {f g : Flight σ α L} {j : ι}
    (flying : Function.update pool i (some f) j = some g) :
    j = i ∧ g = f ∨ j ≠ i ∧ pool j = some g := by
  by_cases same : j = i
  · subst same
    rw [Function.update_self] at flying
    exact Or.inl ⟨rfl, (Option.some.inj flying).symm⟩
  · rw [Function.update_of_ne same] at flying
    exact Or.inr ⟨same, flying⟩

/-- A program is started.  Its result and its effect are those it would have after
everything in flight has ended. -/
theorem Completes.launch (completes : Completes cells pool s t) (idle : pool i = none)
    {f : Flight σ α L} (confined : Confined cells f.footprint f.prog t)
    (apart : ∀ j g, pool j = some g → f.footprint.Apart g.footprint) :
    Completes cells (Function.update pool i (some f)) s (f.prog.run t).2 ∧
      (f.prog.run s).1 = (f.prog.run t).1 := by
  have reads : AgreeOn cells f.footprint.reads s t :=
    completes.agree fun j g known => (apart j g known).2
  obtain ⟨sameResult, sameReads⟩ := confined.run_agree reads.symm
  have outside := confined.run_outside
  refine ⟨⟨?confined, ?apart, ?written, ?rest⟩, sameResult⟩
  case confined =>
    intro j g known
    rcases flying_update known with ⟨-, rfl⟩ | ⟨-, known⟩
    · exact confined.of_agree reads.symm
    · exact completes.confined known
  case apart =>
    intro j k g h known known' different
    rcases flying_update known with ⟨rfl, rfl⟩ | ⟨-, old⟩
    · rcases flying_update known' with ⟨rfl, -⟩ | ⟨-, old'⟩
      · exact absurd rfl different
      · exact apart k h old'
    · rcases flying_update known' with ⟨rfl, rfl⟩ | ⟨-, old'⟩
      · exact (apart j g old).symm
      · exact completes.apart old old' different
  case written =>
    intro j g known
    rcases flying_update known with ⟨-, rfl⟩ | ⟨-, known⟩
    · exact (sameReads.symm).mono g.footprint.writes_subset
    · -- the new program leaves the cells of the others to them
      intro l write
      rw [outside l fun mine => (apart j g known).1 l mine (g.footprint.writes_subset write)]
      exact completes.written known l write
  case rest =>
    intro l unwritten
    have mine : l ∉ f.footprint.writes := unwritten i f (Function.update_self ..)
    rw [outside l mine]
    apply completes.rest
    intro j g known
    have other : j ≠ i := by
      rintro rfl
      rw [idle] at known
      cases known
    exact unwritten j g (by rw [Function.update_of_ne other, known])

omit [DecidableEq ι] in
/-- An action of one program is not seen by the others. -/
theorem Completes.unseen (completes : Completes cells pool s t) {act : σ → σ}
    {next : σ → Prog σ α} {fp : Footprint L} (flying : pool i = some ⟨.step act next, fp⟩)
    {j : ι} {g : Flight σ α L} (known : pool j = some g) (other : j ≠ i) :
    AgreeOn cells g.footprint.reads s (act s) := by
  intro l inside
  apply ((completes.confined flying).1 s (.refl s)).2.2 l
  intro write
  exact (completes.apart flying known other.symm).1 l write inside

omit [DecidableEq ι] in
/-- So it does not change what they will return. -/
theorem Completes.result_unseen (completes : Completes cells pool s t) {act : σ → σ}
    {next : σ → Prog σ α} {fp : Footprint L} (flying : pool i = some ⟨.step act next, fp⟩)
    {j : ι} {g : Flight σ α L} (known : pool j = some g) (other : j ≠ i) :
    (g.prog.run (act s)).1 = (g.prog.run s).1 :=
  ((completes.confined known).run_agree (completes.unseen flying known other)).1

/-- One program in flight takes an action. -/
theorem Completes.advance (completes : Completes cells pool s t) {act : σ → σ}
    {next : σ → Prog σ α} {fp : Footprint L}
    (flying : pool i = some ⟨.step act next, fp⟩) :
    Completes cells (Function.update pool i (some ⟨next s, fp⟩)) (act s) t := by
  obtain ⟨local', onward⟩ := completes.confined flying
  have outside := (local' s (.refl s)).2.2
  have unseen : ∀ {j g}, pool j = some g → j ≠ i →
      AgreeOn cells g.footprint.reads s (act s) := completes.unseen flying
  refine ⟨?confined, ?apart, ?written, ?rest⟩
  case confined =>
    intro j g known
    rcases flying_update known with ⟨-, rfl⟩ | ⟨other, known⟩
    · exact onward
    · exact (completes.confined known).of_agree (unseen known other)
  case apart =>
    intro j k g h known known' different
    rcases flying_update known with ⟨same, rfl⟩ | ⟨-, old⟩
    · rcases flying_update known' with ⟨same', -⟩ | ⟨-, old'⟩
      · exact absurd (same.trans same'.symm) different
      · have separate := completes.apart flying old' (same ▸ different)
        exact separate
    · rcases flying_update known' with ⟨same', rfl⟩ | ⟨-, old'⟩
      · have separate := completes.apart old flying (same' ▸ different)
        exact separate
      · exact completes.apart old old' different
  case written =>
    intro j g known
    rcases flying_update known with ⟨-, rfl⟩ | ⟨other, known⟩
    · exact completes.written flying
    · have same := ((completes.confined known).run_agree (unseen known other)).2
      exact (same.mono g.footprint.writes_subset).symm.trans (completes.written known)
  case rest =>
    intro l unwritten
    have mine : l ∉ fp.writes := unwritten i _ (Function.update_self ..)
    rw [outside l mine]
    apply completes.rest
    intro j g known
    by_cases same : j = i
    · subst same
      obtain rfl := Option.some.inj (flying.symm.trans known)
      exact mine
    · exact unwritten j g (by rw [Function.update_of_ne same, known])

/-- A program that has come to its end is taken out. -/
theorem Completes.land (completes : Completes cells pool s t) {result : α} {fp : Footprint L}
    (flying : pool i = some ⟨.done result, fp⟩) :
    Completes cells (Function.update pool i none) s t := by
  have after : ∀ {j g}, Function.update pool i none j = some g → pool j = some g := by
    intro j g known
    by_cases same : j = i
    · subst same
      rw [Function.update_self] at known
      cases known
    · rwa [Function.update_of_ne same] at known
  refine ⟨fun known => completes.confined (after known),
    fun known known' => completes.apart (after known) (after known'),
    fun known => completes.written (after known), fun l unwritten => ?_⟩
  by_cases mine : l ∈ fp.writes
  · exact completes.written flying l mine
  · apply completes.rest
    intro j g known
    by_cases same : j = i
    · subst same
      obtain rfl := Option.some.inj (flying.symm.trans known)
      exact mine
    · exact unwritten j g (by rw [Function.update_of_ne same, known])

end

end Interleaving
