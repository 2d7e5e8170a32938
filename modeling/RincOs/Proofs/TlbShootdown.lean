/-
Module: RincOs.Proofs.TlbShootdown
Purpose: TLB shootdowns between any number of CPUs, interleaved with changes of
  leaf entries, TLB fills and the handling of the interrupts.  As long as no
  global leaf is replaced, a shootdown leaves no stale translation; a global one
  survives the write of CR3 that answers the interrupt.
Trusted boundary: the interleaving model of the CPUs
Main exports:
  Shootdowns, ShootdownStep, Quiet, noStale_of_noGlobal, global_entry_stale
-/
import RincOs.Arch.Smp
import Mathlib.Logic.Relation

namespace RincOs

/-! ### The system -/

/-- What a TLB holds of a page: its leaf entry, and how often the leaf had been
changed when it was read. -/
structure CachedLeaf where
  leaf : Word
  changes : Nat
deriving DecidableEq

/-- Page-table leaves and, for each CPU, its TLB, its pending bit for the
shootdown vector, and what is left to do of a shootdown it has started.

`uncovered` lists the pages whose leaf was changed with no shootdown for it
started since, `covers` those a shootdown in progress was started for. -/
structure Shootdowns (C : Type) where
  leaf : Nat → Word
  changes : Nat → Nat
  tlb : C → List (TlbEntry CachedLeaf)
  pending : C → Bool
  todo : C → List CpuAction
  covers : C → List Nat
  uncovered : List Nat

/-- The two shootdown calls. -/
inductive ShootdownCall where
  | page (v : VirtAddr)
  | all (cr3 : Word)

namespace ShootdownCall

def actions (mode : ApicMode) : ShootdownCall → List CpuAction
  | .page v => shootdownTlbPage mode v
  | .all cr3 => shootdownTlbAll mode cr3

/-- The call is one for a change at the page with the given number. -/
def isFor : ShootdownCall → Nat → Bool
  | .page v, changed => changed == pageOf v
  | .all _, _ => true

end ShootdownCall

variable {C : Type}

namespace Shootdowns

/-- The leaf of `page` as a TLB caches it. -/
def cached (s : Shootdowns C) (page : Nat) : TlbEntry CachedLeaf :=
  { page := page
    global := s.leaf page &&& pteG != 0
    content := { leaf := s.leaf page, changes := s.changes page } }

/-- `w` is written to the leaf of `page`. -/
def change (s : Shootdowns C) (page : Nat) (w : Word) : Shootdowns C :=
  { s with
    leaf := Function.update s.leaf page w
    changes := Function.update s.changes page (s.changes page + 1)
    uncovered := page :: s.uncovered }

@[simp] theorem change_changes (s : Shootdowns C) (page : Nat) (w : Word) :
    (s.change page w).changes = Function.update s.changes page (s.changes page + 1) := rfl

variable [DecidableEq C]

/-- CPU `c` calls one of the shootdown functions. -/
def start (mode : ApicMode) (s : Shootdowns C) (c : C) (call : ShootdownCall) : Shootdowns C :=
  { s with
    todo := Function.update s.todo c (call.actions mode)
    covers := Function.update s.covers c (s.uncovered.filter call.isFor)
    uncovered := s.uncovered.filter (!call.isFor ·) }

@[simp] theorem start_todo (mode : ApicMode) (s : Shootdowns C) (c : C)
    (call : ShootdownCall) :
    (s.start mode c call).todo = Function.update s.todo c (call.actions mode) := rfl

@[simp] theorem start_covers (mode : ApicMode) (s : Shootdowns C) (c : C)
    (call : ShootdownCall) :
    (s.start mode c call).covers =
      Function.update s.covers c (s.uncovered.filter call.isFor) := rfl

/-- One action of CPU `c`. -/
def perform (c : C) (s : Shootdowns C) : CpuAction → Shootdowns C
  | .tlb op =>
      { s with tlb := Function.update s.tlb c ((s.tlb c).filter (!op.evicts ·)) }
  | .ipiOthers vector =>
      { s with
        pending := fun d => s.pending d || (d != c && vector == tlbShootdownVec) }

/-- `irq_dispatch` for the shootdown vector. -/
def interrupt (s : Shootdowns C) (c : C) (cr3 : Word) : Shootdowns C :=
  (handleTlbShootdown cr3).foldl (perform c)
    { s with pending := Function.update s.pending c false }

end Shootdowns

/-- One step of the system.  `mayReplace` says which leaf entries are changed. -/
inductive ShootdownStep [DecidableEq C] (mode : ApicMode) (mayReplace : Word → Prop)
    (s : Shootdowns C) : Shootdowns C → Prop where
  | change (page : Nat) (w : Word) (may : mayReplace (s.leaf page)) :
      ShootdownStep mode mayReplace s (s.change page w)
  | fill (c : C) (page : Nat) (isPresent : present (s.leaf page) = true) :
      ShootdownStep mode mayReplace s
        { s with tlb := Function.update s.tlb c (s.cached page :: s.tlb c) }
  | evict (c : C) (entry : TlbEntry CachedLeaf) :
      ShootdownStep mode mayReplace s
        { s with tlb := Function.update s.tlb c ((s.tlb c).erase entry) }
  | start (c : C) (call : ShootdownCall) (idle : s.todo c = []) :
      ShootdownStep mode mayReplace s (s.start mode c call)
  | act (c : C) (action : CpuAction) (rest : List CpuAction)
      (next : s.todo c = action :: rest) :
      ShootdownStep mode mayReplace s
        ({ s with todo := Function.update s.todo c rest }.perform c action)
  | interrupt (c : C) (cr3 : Word) (isPending : s.pending c = true) :
      ShootdownStep mode mayReplace s (s.interrupt c cr3)

/-- All changes were followed by a shootdown, and every shootdown is over. -/
structure Quiet (s : Shootdowns C) : Prop where
  covered : s.uncovered = []
  done : ∀ c, s.todo c = []
  delivered : ∀ c, s.pending c = false

/-- No TLB holds a translation it read before a change of its leaf. -/
def NoStale (s : Shootdowns C) : Prop :=
  ∀ c, ∀ entry ∈ s.tlb c, entry.content.changes = s.changes entry.page

/-- Nothing is going on and all TLBs are as the leaves are. -/
structure Settled (s : Shootdowns C) : Prop where
  quiet : Quiet s
  current : ∀ c, ∀ entry ∈ s.tlb c, present entry.content.leaf = true ∧
    entry = s.cached entry.page

/-! ### What will evict a stale entry -/

/-- The entry of CPU `c` is accounted for: its change waits for a shootdown, or
one in progress elsewhere has still to interrupt `c`, or one in progress on `c`
has still to evict the entry, or the interrupt is pending. -/
def Due (s : Shootdowns C) (c : C) (entry : TlbEntry CachedLeaf) : Prop :=
  entry.page ∈ s.uncovered ∨
    (∃ d, d ≠ c ∧ entry.page ∈ s.covers d ∧ .ipiOthers tlbShootdownVec ∈ s.todo d) ∨
    (∃ op, .tlb op ∈ s.todo c ∧ op.evicts entry = true) ∨
    s.pending c = true

/-- Global entries are current, and stale ones are accounted for. -/
structure ShootdownInv (s : Shootdowns C) : Prop where
  global : ∀ c, ∀ entry ∈ s.tlb c, entry.global = true →
    present entry.content.leaf = true ∧ entry = s.cached entry.page
  due : ∀ c, ∀ entry ∈ s.tlb c, entry.content.changes ≠ s.changes entry.page →
    Due s c entry

/-- Leaves that are present and global are not replaced. -/
def NotGlobal (w : Word) : Prop := ¬ (present w = true ∧ (w &&& pteG != 0) = true)

instance (w : Word) : Decidable (NotGlobal w) :=
  inferInstanceAs (Decidable (¬ (present w = true ∧ (w &&& pteG != 0) = true)))

section

variable {s : Shootdowns C}

theorem Settled.inv (settled : Settled s) : ShootdownInv s where
  global c entry inside _ := settled.current c entry inside
  due c entry inside stale := by
    obtain ⟨-, same⟩ := settled.current c entry inside
    exact absurd (congrArg (·.content.changes) same) stale

theorem ShootdownInv.notGlobal (inv : ShootdownInv s) {c : C} {entry : TlbEntry CachedLeaf}
    (inside : entry ∈ s.tlb c) (stale : entry.content.changes ≠ s.changes entry.page) :
    entry.global = false := by
  cases isGlobal : entry.global with
  | false => rfl
  | true =>
      obtain ⟨-, same⟩ := inv.global c entry inside isGlobal
      exact absurd (congrArg (·.content.changes) same) stale

/-- TLBs that lose entries, with everything else as it was. -/
theorem ShootdownInv.lose (inv : ShootdownInv s)
    {tlb : C → List (TlbEntry CachedLeaf)} (fewer : ∀ c, ∀ entry ∈ tlb c, entry ∈ s.tlb c) :
    ShootdownInv { s with tlb := tlb } where
  global c entry inside := inv.global c entry (fewer c entry inside)
  due c entry inside := inv.due c entry (fewer c entry inside)

/-! ### One step -/

theorem ShootdownInv.change (inv : ShootdownInv s) {page : Nat} (w : Word)
    (may : NotGlobal (s.leaf page)) : ShootdownInv (s.change page w) where
  global c entry inside isGlobal := by
    obtain ⟨isPresent, same⟩ := inv.global c entry inside isGlobal
    refine ⟨isPresent, same.trans ?_⟩
    have other : entry.page ≠ page := by
      rintro rfl
      rw [same] at isPresent isGlobal
      exact may ⟨isPresent, isGlobal⟩
    simp [Shootdowns.cached, Shootdowns.change, other]
  due c entry inside stale := by
    by_cases changed : entry.page = page
    · exact Or.inl (changed ▸ List.mem_cons_self)
    · rw [Shootdowns.change_changes, Function.update_of_ne changed] at stale
      exact (inv.due c entry inside stale).imp_left (List.mem_cons_of_mem page)

theorem ShootdownInv.fill [DecidableEq C] (inv : ShootdownInv s) (c : C) {page : Nat}
    (isPresent : present (s.leaf page) = true) :
    ShootdownInv { s with tlb := Function.update s.tlb c (s.cached page :: s.tlb c) } := by
  have known : ∀ d, ∀ entry ∈ Function.update s.tlb c (s.cached page :: s.tlb c) d,
      entry = s.cached page ∨ entry ∈ s.tlb d := by
    intro d entry inside
    by_cases same : d = c
    · subst same
      rw [Function.update_self] at inside
      exact List.mem_cons.mp inside
    · rw [Function.update_of_ne same] at inside
      exact Or.inr inside
  refine ⟨fun d entry inside isGlobal => ?_, fun d entry inside stale => ?_⟩
  · rcases known d entry inside with rfl | old
    · exact ⟨isPresent, rfl⟩
    · exact inv.global d entry old isGlobal
  · rcases known d entry inside with rfl | old
    · exact absurd rfl stale
    · exact inv.due d entry old stale

section

variable {mode : ApicMode}

/-- Both shootdowns evict on their own CPU what they are for, unless it is
global, and both interrupt the other CPUs. -/
theorem ShootdownCall.evicts (call : ShootdownCall)
    {entry : TlbEntry CachedLeaf} (notGlobal : entry.global = false)
    (isFor : call.isFor entry.page = true) :
    ∃ op, .tlb op ∈ call.actions mode ∧ op.evicts entry = true := by
  cases call with
  | page v => exact ⟨.invlpg v, List.mem_cons_self, isFor⟩
  | all cr3 => exact ⟨.writeCr3 cr3, List.mem_cons_self, by simp [TlbOp.evicts, notGlobal]⟩

theorem ShootdownCall.interrupts (call : ShootdownCall)
    (ready : mode ≠ .none) : .ipiOthers tlbShootdownVec ∈ call.actions mode := by
  cases call <;> simp [ShootdownCall.actions, shootdownTlbPage, shootdownTlbAll,
    sendIpiAllOthers, ready]

end

theorem ShootdownInv.start [DecidableEq C] {mode : ApicMode} (inv : ShootdownInv s)
    (ready : mode ≠ .none) {c : C} (call : ShootdownCall) (idle : s.todo c = []) :
    ShootdownInv (s.start mode c call) where
  global := inv.global
  due d entry inside stale := by
    have busy : ∀ {e action}, action ∈ s.todo e → e ≠ c := by
      rintro e action left rfl
      simp [idle] at left
    rcases inv.due d entry inside stale with uncovered | ⟨e, other, covers, sends⟩ |
      ⟨op, left, evicts⟩ | isPending
    · by_cases isFor : call.isFor entry.page = true
      · by_cases own : d = c
        · -- the shootdown on this CPU has the entry's eviction ahead
          obtain ⟨op, left, evicts⟩ : ∃ op, .tlb op ∈ call.actions mode ∧ op.evicts entry = true :=
            call.evicts (inv.notGlobal inside stale) isFor
          refine Or.inr (Or.inr (Or.inl ⟨op, ?_, evicts⟩))
          rwa [Shootdowns.start_todo, own, Function.update_self]
        · refine Or.inr (Or.inl ⟨c, fun same => own same.symm, ?_, ?_⟩)
          · rw [Shootdowns.start_covers, Function.update_self]
            exact List.mem_filter.mpr ⟨uncovered, isFor⟩
          · rw [Shootdowns.start_todo, Function.update_self]
            exact call.interrupts ready
      · exact Or.inl (List.mem_filter.mpr ⟨uncovered, by simpa using isFor⟩)
    · refine Or.inr (Or.inl ⟨e, other, ?_, ?_⟩)
      · rwa [Shootdowns.start_covers, Function.update_of_ne (busy sends)]
      · rwa [Shootdowns.start_todo, Function.update_of_ne (busy sends)]
    · refine Or.inr (Or.inr (Or.inl ⟨op, ?_, evicts⟩))
      rwa [Shootdowns.start_todo, Function.update_of_ne (busy left)]
    · exact Or.inr (Or.inr (Or.inr isPending))

/-- Maintenance of the TLB of `c` evicts what it was to evict. -/
theorem ShootdownInv.actTlb [DecidableEq C] (inv : ShootdownInv s) {c : C} {op : TlbOp}
    {rest : List CpuAction} (next : s.todo c = .tlb op :: rest) :
    ShootdownInv ({ s with todo := Function.update s.todo c rest }.perform c (.tlb op)) := by
  have kept : ∀ d, ∀ entry ∈ Function.update s.tlb c ((s.tlb c).filter (!op.evicts ·)) d,
      entry ∈ s.tlb d ∧ (d = c → op.evicts entry = false) := by
    intro d entry inside
    by_cases same : d = c
    · subst same
      rw [Function.update_self, List.mem_filter] at inside
      exact ⟨inside.1, fun _ => by simpa using inside.2⟩
    · rw [Function.update_of_ne same] at inside
      exact ⟨inside, fun own => absurd own same⟩
  have left : ∀ {d action}, action ∈ s.todo d → (d = c → action ≠ .tlb op) →
      action ∈ Function.update s.todo c rest d := by
    intro d action ahead later
    by_cases same : d = c
    · rw [same, next] at ahead
      rw [same, Function.update_self]
      exact (List.mem_cons.mp ahead).resolve_left (later same)
    · rwa [Function.update_of_ne same]
  refine ⟨fun d entry inside => inv.global d entry (kept d entry inside).1,
    fun d entry inside stale => ?_⟩
  obtain ⟨old, survived⟩ := kept d entry inside
  rcases inv.due d entry old stale with uncovered | ⟨e, other, covers, sends⟩ |
    ⟨op', ahead, evicts⟩ | isPending
  · exact Or.inl uncovered
  · exact Or.inr (Or.inl ⟨e, other, covers, left sends (by simp)⟩)
  · refine Or.inr (Or.inr (Or.inl ⟨op', left ahead fun own same => ?_, evicts⟩))
    rw [CpuAction.tlb.inj same, survived own] at evicts
    cases evicts
  · exact Or.inr (Or.inr (Or.inr isPending))

/-- An interrupt sent by `c` becomes pending on the CPUs it was owed to. -/
theorem ShootdownInv.actIpi [DecidableEq C] (inv : ShootdownInv s) {c : C} {vector : BitVec 8}
    {rest : List CpuAction} (next : s.todo c = .ipiOthers vector :: rest) :
    ShootdownInv
      ({ s with todo := Function.update s.todo c rest }.perform c (.ipiOthers vector)) := by
  refine ⟨inv.global, fun d entry inside stale => ?_⟩
  rcases inv.due d entry inside stale with uncovered | ⟨e, other, covers, sends⟩ |
    ⟨op, ahead, evicts⟩ | isPending
  · exact Or.inl uncovered
  · by_cases sender : e = c
    · rw [sender, next] at sends
      rcases List.mem_cons.mp sends with now | later
      · have same : vector = tlbShootdownVec := (CpuAction.ipiOthers.inj now).symm
        have apart : d ≠ c := fun own => other (sender.trans own.symm)
        refine Or.inr (Or.inr (Or.inr ?_))
        simp [Shootdowns.perform, same, apart]
      · refine Or.inr (Or.inl ⟨e, other, covers, ?_⟩)
        rw [sender]
        simpa [Shootdowns.perform] using later
    · refine Or.inr (Or.inl ⟨e, other, covers, ?_⟩)
      simpa [Shootdowns.perform, sender] using sends
  · refine Or.inr (Or.inr (Or.inl ⟨op, ?_, evicts⟩))
    by_cases own : d = c
    · rw [own, next] at ahead
      rw [own]
      simpa [Shootdowns.perform] using ahead
    · simpa [Shootdowns.perform, own] using ahead
  · refine Or.inr (Or.inr (Or.inr ?_))
    simp [Shootdowns.perform, isPending]

/-- The handler leaves global entries, which are current. -/
theorem ShootdownInv.interrupt [DecidableEq C] (inv : ShootdownInv s) (c : C) (cr3 : Word) :
    ShootdownInv (s.interrupt c cr3) := by
  have kept : ∀ d, ∀ entry ∈ (s.interrupt c cr3).tlb d,
      entry ∈ s.tlb d ∧ (d = c → entry.global = true) := by
    intro d entry inside
    by_cases same : d = c
    · subst same
      simpa [Shootdowns.interrupt, handleTlbShootdown, flushTlbAll, Shootdowns.perform,
        TlbOp.evicts] using inside
    · refine ⟨?_, fun own => absurd own same⟩
      simpa [Shootdowns.interrupt, handleTlbShootdown, flushTlbAll, Shootdowns.perform,
        same] using inside
  refine ⟨fun d entry inside => inv.global d entry (kept d entry inside).1,
    fun d entry inside stale => ?_⟩
  obtain ⟨old, survived⟩ := kept d entry inside
  have apart : d ≠ c := by
    intro own
    have notGlobal := inv.notGlobal old stale
    rw [survived own] at notGlobal
    cases notGlobal
  rcases inv.due d entry old stale with uncovered | remote | ahead | isPending
  · exact Or.inl uncovered
  · exact Or.inr (Or.inl remote)
  · exact Or.inr (Or.inr (Or.inl ahead))
  · refine Or.inr (Or.inr (Or.inr ?_))
    simpa [Shootdowns.interrupt, handleTlbShootdown, flushTlbAll, Shootdowns.perform,
      apart] using isPending

theorem ShootdownInv.step [DecidableEq C] {mode : ApicMode} {s' : Shootdowns C}
    (inv : ShootdownInv s) (ready : mode ≠ .none) (step : ShootdownStep mode NotGlobal s s') :
    ShootdownInv s' := by
  cases step with
  | change page w may => exact inv.change w may
  | fill c page isPresent => exact inv.fill c isPresent
  | evict c entry =>
      refine inv.lose fun d other inside => ?_
      by_cases same : d = c
      · subst same
        rw [Function.update_self] at inside
        exact List.mem_of_mem_erase inside
      · rwa [Function.update_of_ne same] at inside
  | start c call idle => exact inv.start ready call idle
  | act c action rest next =>
      cases action with
      | tlb op => exact inv.actTlb next
      | ipiOthers vector => exact inv.actIpi next
  | interrupt c cr3 _ => exact inv.interrupt c cr3

theorem ShootdownInv.run [DecidableEq C] {mode : ApicMode} {s' : Shootdowns C}
    (inv : ShootdownInv s) (ready : mode ≠ .none)
    (run : Relation.ReflTransGen (ShootdownStep mode NotGlobal) s s') : ShootdownInv s' := by
  induction run with
  | refl => exact inv
  | tail _ step inductionHypothesis => exact inductionHypothesis.step ready step

end

/-- However changes, fills, shootdowns and interrupts are interleaved, no stale
translation is left when all is quiet, if no global leaf was replaced. -/
theorem noStale_of_noGlobal [DecidableEq C] {mode : ApicMode} {start s : Shootdowns C}
    (ready : mode ≠ .none) (settled : Settled start)
    (run : Relation.ReflTransGen (ShootdownStep mode NotGlobal) start s) (quiet : Quiet s) :
    NoStale s := by
  have inv : ShootdownInv s := settled.inv.run ready run
  intro c entry inside
  by_contra stale
  rcases inv.due c entry inside stale with uncovered | ⟨d, -, -, sends⟩ | ⟨op, ahead, -⟩ |
    isPending
  · simp [quiet.covered] at uncovered
  · simp [quiet.done] at sends
  · simp [quiet.done] at ahead
  · simp [quiet.delivered] at isPending

/-! ### One page on two CPUs -/

/-- Two CPUs with empty TLBs, and one page with the given leaf. -/
def oneLeaf (w : Word) : Shootdowns (Fin 2) where
  leaf page := if page = 0x400 then w else 0
  changes _ := 0
  tlb _ := []
  pending _ := false
  todo _ := []
  covers _ := []
  uncovered := []

/-- CPU 1 has cached the page, CPU 0 has unmapped it and calls
`shootdown_tlb_page`. -/
def shootdownBegun (w : Word) : Shootdowns (Fin 2) :=
  let filled := { oneLeaf w with
    tlb := Function.update (oneLeaf w).tlb 1 [(oneLeaf w).cached 0x400] }
  (filled.change 0x400 0).start .x2apic 0 (.page 0x400000)

/-- CPU 0 has made its two steps and CPU 1 has handled the interrupt. -/
def shootdownOver (w : Word) : Shootdowns (Fin 2) :=
  let flushed := { shootdownBegun w with
    todo := Function.update (shootdownBegun w).todo 0 [.ipiOthers tlbShootdownVec] }.perform 0
      (.tlb (.invlpg 0x400000))
  let sent := { flushed with todo := Function.update flushed.todo 0 [] }.perform 0
    (.ipiOthers tlbShootdownVec)
  sent.interrupt 1 0x100000

theorem settled_oneLeaf (w : Word) : Settled (oneLeaf w) :=
  ⟨⟨rfl, fun _ => rfl, fun _ => rfl⟩, by simp [oneLeaf]⟩

theorem quiet_shootdownOver (w : Word) : Quiet (shootdownOver w) := by
  refine ⟨rfl, fun c => ?_, fun c => ?_⟩
  · match c with
    | 0 => rfl
    | 1 => rfl
  · match c with
    | 0 => rfl
    | 1 => rfl

theorem run_shootdownOver {mayReplace : Word → Prop} {w : Word} (isPresent : present w = true)
    (may : mayReplace w) :
    Relation.ReflTransGen (ShootdownStep .x2apic mayReplace) (oneLeaf w) (shootdownOver w) := by
  have filled : Relation.ReflTransGen (ShootdownStep .x2apic mayReplace) (oneLeaf w) _ :=
    .single (.fill 1 0x400 isPresent)
  have changed := filled.tail (.change 0x400 0 may)
  have begun := changed.tail (.start 0 (.page 0x400000) rfl)
  have flushed := begun.tail (.act 0 _ _ rfl)
  have sent := flushed.tail (.act 0 _ _ rfl)
  exact sent.tail (.interrupt 1 0x100000 rfl)

/-- A page that is not global is gone from both TLBs. -/
theorem noStale_shootdownOver : NoStale (shootdownOver 0x5001) :=
  noStale_of_noGlobal (by decide) (settled_oneLeaf _)
    (run_shootdownOver (by decide) (by decide)) (quiet_shootdownOver _)

/-- The leaf `map_4k` writes for `MapFlags::GLOBAL`. -/
def globalLeaf : Word := 0x5000 ||| flagsToPte false .global

/-- A global page is still cached on CPU 1 after the shootdown. -/
theorem global_entry_stale :
    Relation.ReflTransGen (ShootdownStep .x2apic fun _ => True) (oneLeaf globalLeaf)
        (shootdownOver globalLeaf) ∧
      Quiet (shootdownOver globalLeaf) ∧
      (shootdownOver globalLeaf).leaf 0x400 = 0 ∧
      (oneLeaf globalLeaf).cached 0x400 ∈ (shootdownOver globalLeaf).tlb 1 ∧
      ¬ NoStale (shootdownOver globalLeaf) := by
  have left : (oneLeaf globalLeaf).cached 0x400 ∈ (shootdownOver globalLeaf).tlb 1 := by
    decide +kernel
  refine ⟨run_shootdownOver (by decide) trivial, quiet_shootdownOver _, rfl, left,
    fun fresh => ?_⟩
  exact absurd (fresh 1 _ left) (by decide)

end RincOs
