/-
Module: RincOs.Proofs.VmAccounts
Purpose: What follows from the specification of the VM service for its frames.
  Every page of the memory map is on the free list, ahead of the cursor, in use as
  a table, or lost at a known call; memory runs out only when no page is left; and
  where the pages lie makes no difference.
Trusted boundary: none
Main exports:
  VmSpec.step_frames, frames_accounted, outOfMemory_justified, answers_layoutFree
-/
import RincOs.Proofs.VmRefinement

namespace RincOs

open RadixForest LawfulFrameAlloc CountedFrameAlloc

/-! ### The specification keeps account of its frames -/

namespace FramePool

variable {pool pool' : FramePool}

theorem total_take (taken : pool.take = some pool') : pool'.total + 1 = pool.total := by
  rw [take] at taken
  split at taken
  · obtain rfl := Option.some.inj taken
    simp only [total]
    omega
  · split at taken
    · obtain rfl := Option.some.inj taken
      simp only [total]
      omega
    · cases taken

theorem total_give (pool : FramePool) : pool.give.total = pool.total + 1 := by
  rw [give]
  split
  · simp only [total]
    omega
  · rfl

theorem total_giveAll (count : Nat) (pool : FramePool) :
    (pool.giveAll count).total = pool.total + count := by
  induction count generalizing pool with
  | zero => rfl
  | succ count inductionHypothesis =>
      rw [giveAll, inductionHypothesis, total_give]
      omega

end FramePool

theorem reachTables_total {above rest : List (Fin entryCount)}
    {tables tables' : Finset (List (Fin entryCount))} {pool pool' : FramePool} {reached : Bool}
    (done : reachTables above rest tables pool = (reached, tables', pool')) :
    pool'.total + tables'.card = pool.total + tables.card := by
  induction rest generalizing above tables pool with
  | nil =>
      cases done
      rfl
  | cons i rest inductionHypothesis =>
      rw [reachTables] at done
      split at done
      · exact inductionHypothesis done
      · rename_i missing
        cases taken : pool.take with
        | none =>
            rw [taken] at done
            cases done
            rfl
        | some left =>
            rw [taken] at done
            have onward := inductionHypothesis done
            have one := FramePool.total_take taken
            rw [Finset.card_insert_of_notMem missing] at onward
            omega

namespace VmSpec

variable {spec : VmSpec} {a : Fin maxAddressSpaces}

/-- One space is replaced by another. -/
theorem frames_setSpace (spec : VmSpec) (a : Fin maxAddressSpaces) (space : Option SpaceSpec) :
    (spec.setSpace a space).frames + (spec.spaces a).elim 0 SpaceSpec.frames =
      spec.frames + space.elim 0 SpaceSpec.frames := by
  have split : ∀ spaces : Fin maxAddressSpaces → Option SpaceSpec,
      ∑ b, (spaces b).elim 0 SpaceSpec.frames =
        (spaces a).elim 0 SpaceSpec.frames +
          ∑ b ∈ Finset.univ.erase a, (spaces b).elim 0 SpaceSpec.frames :=
    fun spaces => (Finset.add_sum_erase _ _ (Finset.mem_univ a)).symm
  have others : ∑ b ∈ Finset.univ.erase a,
        (Function.update spec.spaces a space b).elim 0 SpaceSpec.frames =
      ∑ b ∈ Finset.univ.erase a, (spec.spaces b).elim 0 SpaceSpec.frames := by
    apply Finset.sum_congr rfl
    intro b member
    rw [Function.update_of_ne (Finset.ne_of_mem_erase member)]
  rw [frames, frames, setSpace]
  dsimp only
  rw [split (Function.update spec.spaces a space), split spec.spaces, others,
    Function.update_self]
  omega

theorem frames_withPool (spec : VmSpec) (pool : FramePool) :
    VmSpec.frames { spec with pool := pool } + spec.pool.total = spec.frames + pool.total := by
  rw [frames, frames]
  dsimp only
  omega

theorem new_frames (spec : VmSpec) : spec.new.2.frames = spec.frames := by
  rw [new]
  cases taken : spec.pool.take with
  | none => rfl
  | some pool =>
      have one := FramePool.total_take taken
      have pools := spec.frames_withPool pool
      dsimp only
      cases found : (List.finRange maxAddressSpaces).find? fun i => (spec.spaces i).isNone with
      | none =>
          have stranded := spec.frames_withPool pool.drop
          have gone : pool.drop.total = pool.total + 1 := rfl
          dsimp only
          omega
      | some i =>
          have vacant : spec.spaces i = none := by simpa using List.find?_some found
          have planted := frames_setSpace { spec with pool := pool } i (some .empty)
          rw [vacant, Option.elim_none, Option.elim_some] at planted
          have root : SpaceSpec.empty.frames = 1 := rfl
          dsimp only
          omega

theorem destroy_frames {space : SpaceSpec} (known : spec.spaces a = some space) :
    (spec.destroy a space).2.frames = spec.frames := by
  have pools := spec.frames_withPool (spec.pool.giveAll space.frames)
  have returned := FramePool.total_giveAll space.frames spec.pool
  have removed := frames_setSpace { spec with pool := spec.pool.giveAll space.frames } a none
  rw [known, Option.elim_none, Option.elim_some] at removed
  rw [destroy]
  dsimp only
  omega

theorem map_frames {space : SpaceSpec} (known : spec.spaces a = some space) (v : VirtAddr)
    (p : PhysAddr) (flags : MapFlags) : (spec.map a space v p flags).2.frames = spec.frames := by
  rw [map]
  split
  · rfl
  · rcases done : reachTables [] (tablePath v) space.tables spec.pool with
      ⟨reached, tables, pool⟩
    have moved := reachTables_total done
    have pools := spec.frames_withPool pool
    dsimp only
    generalize (if reached = true then space.mapPage v p flags else .error .outOfMemory) = result
    have replaced := frames_setSpace { spec with pool := pool } a
      (some { pages := result.toOption.getD space.pages, tables := tables })
    rw [known, Option.elim_some, Option.elim_some, SpaceSpec.frames, SpaceSpec.frames] at replaced
    dsimp only at replaced
    omega

theorem onPages_frames {space : SpaceSpec} (known : spec.spaces a = some space) (op : PageOp) :
    (spec.onPages a space op).2.frames = spec.frames := by
  rw [onPages]
  dsimp only
  have replaced := frames_setSpace spec a
    (some { space with pages := (space.pages.step false op).2 })
  rw [known, Option.elim_some, Option.elim_some, SpaceSpec.frames, SpaceSpec.frames] at replaced
  exact Nat.add_right_cancel replaced

/-- What holds of the answer for every space holds of the answer. -/
theorem onSpace_cases (P : VmResult × VmSpec → Prop)
    {answer : Fin maxAddressSpaces → SpaceSpec → VmResult × VmSpec} (aspace : AddressSpace)
    (refused : P (.handle (.error .invalidArgs), spec))
    (answered : ∀ a space, spec.spaces a = some space → P (answer a space)) :
    P (spec.onSpace aspace answer) := by
  cases aspace with
  | kas => exact refused
  | slot a =>
      rw [onSpace]
      cases known : spec.spaces a with
      | none => exact refused
      | some space => exact answered a space known

/-- No call makes or swallows a frame. -/
theorem step_frames (spec : VmSpec) (call : VmCall) : (spec.step call).2.frames = spec.frames := by
  let same (outcome : VmResult × VmSpec) := outcome.2.frames = spec.frames
  cases call with
  | newAddressSpace cpu => exact spec.new_frames
  | destroyAddressSpace aspace =>
      exact onSpace_cases same aspace rfl fun a space known => destroy_frames known
  | map4k aspace v p flags =>
      exact onSpace_cases same aspace rfl fun a space known => map_frames known v p flags
  | unmap4k aspace v =>
      exact onSpace_cases same aspace rfl fun a space known => onPages_frames known (.unmap v)
  | protect4k aspace v flags =>
      exact onSpace_cases same aspace rfl fun a space known =>
        onPages_frames known (.protect v flags)
  | translate aspace v =>
      exact onSpace_cases same aspace rfl fun a space known =>
        onPages_frames known (.translate v)

theorem after_frames (spec : VmSpec) (history : List (VmCall × VmResult)) :
    (spec.after history).frames = spec.frames := by
  induction history with
  | nil => rfl
  | cons event past inductionHypothesis =>
      rw [after, step_frames, inductionHypothesis]

theorem boot_frames (frames : Nat) : (boot frames).frames = frames := by
  simp [VmSpec.frames, boot, FramePool.total]

/-- The histories of a specification are determined by their calls. -/
theorem Prescribes.unique {history history' : List (VmCall × VmResult)}
    (one : spec.Prescribes history) (two : spec.Prescribes history')
    (same : history.map Prod.fst = history'.map Prod.fst) : history = history' := by
  induction history generalizing history' with
  | nil =>
      cases history' with
      | nil => rfl
      | cons => cases same
  | cons event past inductionHypothesis =>
      cases history' with
      | nil => cases same
      | cons event' past' =>
          obtain ⟨sameCall, samePast⟩ := List.cons.inj same
          obtain rfl := inductionHypothesis one.1 two.1 samePast
          have result : event.2 = event'.2 := by
            rw [← one.2, ← two.2, sameCall]
          rw [Prod.ext sameCall result]

end VmSpec

/-! ### Frames that are lost -/

section

variable {pool pool' : FramePool}

theorem FramePool.lost_take (taken : pool.take = some pool') : pool'.lost = pool.lost := by
  rw [take] at taken
  split at taken
  · obtain rfl := Option.some.inj taken
    rfl
  · split at taken
    · obtain rfl := Option.some.inj taken
      rfl
    · cases taken

theorem FramePool.lost_giveAll (count : Nat) (pool : FramePool) :
    (pool.giveAll count).lost = pool.lost + (count - (maxFreeFrames - pool.listed)) := by
  induction count generalizing pool with
  | zero => simp [giveAll]
  | succ count inductionHypothesis =>
      rw [giveAll, inductionHypothesis, give]
      split
      · dsimp only
        omega
      · dsimp only
        omega

theorem reachTables_lost {above rest : List (Fin entryCount)}
    {tables tables' : Finset (List (Fin entryCount))} {reached : Bool}
    (done : reachTables above rest tables pool = (reached, tables', pool')) :
    pool'.lost = pool.lost := by
  induction rest generalizing above tables pool with
  | nil =>
      cases done
      rfl
  | cons i rest inductionHypothesis =>
      rw [reachTables] at done
      split at done
      · exact inductionHypothesis done
      · cases taken : pool.take with
        | none =>
            rw [taken] at done
            cases done
            rfl
        | some left =>
            rw [taken] at done
            rw [inductionHypothesis done, FramePool.lost_take taken]

end

namespace VmSpec

variable {spec : VmSpec} {a : Fin maxAddressSpaces}

theorem new_lost (spec : VmSpec) (cpu : Cpu) :
    spec.new.2.pool.lost = spec.pool.lost + spec.loss (.newAddressSpace cpu) := by
  rw [new, loss]
  cases taken : spec.pool.take with
  | none => simp
  | some pool =>
      have kept := FramePool.lost_take taken
      dsimp only
      cases found : (List.finRange maxAddressSpaces).find? fun i => (spec.spaces i).isNone with
      | none =>
          have full : ∀ a, (spec.spaces a).isSome := by
            intro a
            have busy := List.find?_eq_none.mp found a (List.mem_finRange a)
            simpa [Option.isSome_iff_ne_none] using busy
          rw [if_pos ⟨rfl, full⟩, ← kept]
          rfl
      | some i =>
          have vacant : spec.spaces i = none := by simpa using List.find?_some found
          have room : ¬ ∀ a, (spec.spaces a).isSome := fun full => by simpa [vacant] using full i
          rw [if_neg fun both => room both.2]
          exact kept

theorem map_lost (space : SpaceSpec) (v : VirtAddr) (p : PhysAddr) (flags : MapFlags) :
    (spec.map a space v p flags).2.pool.lost = spec.pool.lost := by
  rw [map]
  split
  · rfl
  · rcases done : reachTables [] (tablePath v) space.tables spec.pool with
      ⟨reached, tables, pool⟩
    exact reachTables_lost done

theorem step_lost (spec : VmSpec) (call : VmCall) :
    (spec.step call).2.pool.lost = spec.pool.lost + spec.loss call := by
  let same (outcome : VmResult × VmSpec) := outcome.2.pool.lost = spec.pool.lost
  cases call with
  | newAddressSpace cpu => exact spec.new_lost cpu
  | destroyAddressSpace aspace =>
      cases aspace with
      | kas => rfl
      | slot a =>
          rw [step, onSpace, loss]
          cases known : spec.spaces a with
          | none => rfl
          | some space => exact FramePool.lost_giveAll space.frames spec.pool
  | map4k aspace v p flags =>
      exact onSpace_cases same aspace rfl fun a space known => map_lost space v p flags
  | unmap4k aspace v | protect4k aspace v flags | translate aspace v =>
      exact onSpace_cases same aspace rfl fun a space known => rfl

theorem after_lost (spec : VmSpec) (history : List (VmCall × VmResult)) :
    (spec.after history).pool.lost = spec.pool.lost + spec.lossOf history := by
  induction history with
  | nil => rfl
  | cons event past inductionHypothesis =>
      rw [after, step_lost, inductionHypothesis, lossOf, Nat.add_assoc]

end VmSpec

/-! ### When the specification runs out of memory -/

theorem FramePool.take_eq_none {pool : FramePool} :
    pool.take = none ↔ pool.listed = 0 ∧ pool.ahead = 0 := by
  rw [take]
  split_ifs <;> simp_all

/-- The descent stops early only if there is no frame left. -/
theorem reachTables_stops {above rest : List (Fin entryCount)}
    {tables tables' : Finset (List (Fin entryCount))} {pool pool' : FramePool}
    (done : reachTables above rest tables pool = (false, tables', pool')) :
    pool'.take = none := by
  induction rest generalizing above tables pool with
  | nil => cases done
  | cons i rest inductionHypothesis =>
      rw [reachTables] at done
      split at done
      · exact inductionHypothesis done
      · cases taken : pool.take with
        | none =>
            rw [taken] at done
            cases done
            exact taken
        | some left =>
            rw [taken] at done
            exact inductionHypothesis done

/-- `OutOfMemory` has one of two causes. -/
def VmSpec.Exhausted (spec : VmSpec) (call : VmCall) (outcome : VmResult × VmSpec) : Prop :=
  outcome.1 = .handle (.error .outOfMemory) →
    outcome.2.pool.take = none ∨
      (∃ cpu, call = .newAddressSpace cpu) ∧ outcome.2.spaces = spec.spaces ∧
        ∀ a, (spec.spaces a).isSome

namespace VmSpec

variable {spec : VmSpec} {a : Fin maxAddressSpaces}

theorem new_exhausted (cpu : Cpu) : spec.Exhausted (.newAddressSpace cpu) spec.new := by
  rw [new]
  cases taken : spec.pool.take with
  | none => exact fun _ => Or.inl taken
  | some pool =>
      dsimp only
      cases found : (List.finRange maxAddressSpaces).find? fun i => (spec.spaces i).isNone with
      | none =>
          refine fun _ => Or.inr ⟨⟨cpu, rfl⟩, rfl, fun a => ?_⟩
          have full := List.find?_eq_none.mp found a (List.mem_finRange a)
          simpa [Option.isSome_iff_ne_none] using full
      | some i => exact fun refused => by cases refused

theorem map_exhausted (call : VmCall) (space : SpaceSpec) (v : VirtAddr) (p : PhysAddr)
    (flags : MapFlags) : spec.Exhausted call (spec.map a space v p flags) := by
  rw [map]
  split
  · exact fun refused => by cases refused
  · rcases done : reachTables [] (tablePath v) space.tables spec.pool with
      ⟨reached, tables, pool⟩
    cases reached with
    | false => exact fun _ => Or.inl (reachTables_stops done)
    | true =>
        intro refused
        dsimp only at refused
        rw [if_pos rfl, SpaceSpec.mapPage] at refused
        split at refused <;> cases refused

/-- Only mapping a page can ask for a frame. -/
theorem pageStep_hasMemory (pages : PageMap) {op : PageOp}
    (kind : ∀ v p flags, op ≠ .map v p flags) :
    (pages.step false op).1 ≠ .updated (.error .outOfMemory) := by
  cases op with
  | map v p flags => exact absurd rfl (kind v p flags)
  | unmap v | protect v flags =>
      rw [PageMap.step]
      split_ifs
      · simp
      · split <;> simp
  | translate v =>
      rw [PageMap.step]
      split <;> simp

theorem onPages_exhausted (call : VmCall) (space : SpaceSpec) {op : PageOp}
    (kind : ∀ v p flags, op ≠ .map v p flags) : spec.Exhausted call (spec.onPages a space op) := by
  intro refused
  rw [onPages] at refused
  have hasMemory := pageStep_hasMemory space.pages kind
  dsimp only at refused
  split at refused
  · next result answer =>
      rw [answer] at hasMemory
      cases result with
      | ok => cases refused
      | error e =>
          cases refused
          exact absurd rfl hasMemory
  · cases refused

theorem step_exhausted (spec : VmSpec) (call : VmCall) : spec.Exhausted call (spec.step call) := by
  have refused : spec.Exhausted call (.handle (.error .invalidArgs), spec) :=
    fun impossible => by cases impossible
  cases call with
  | newAddressSpace cpu => exact new_exhausted cpu
  | destroyAddressSpace aspace =>
      exact onSpace_cases (spec.Exhausted _) aspace refused
        fun a space known impossible => by cases impossible
  | map4k aspace v p flags =>
      exact onSpace_cases (spec.Exhausted _) aspace refused
        fun a space known => map_exhausted _ space v p flags
  | unmap4k aspace v =>
      exact onSpace_cases (spec.Exhausted _) aspace refused
        fun a space known => onPages_exhausted _ space nofun
  | protect4k aspace v flags =>
      exact onSpace_cases (spec.Exhausted _) aspace refused
        fun a space known => onPages_exhausted _ space nofun
  | translate aspace v =>
      exact onSpace_cases (spec.Exhausted _) aspace refused
        fun a space known => onPages_exhausted _ space nofun

end VmSpec

/-! ### On the machine -/

section

variable {C C' : Type} [DecidableEq C] [DecidableEq C'] {map map' : BootMap}
  {root root' : PhysAddr} {start t : Shared C (BootAllocOver map)}
  {start' t' : Shared C' (BootAllocOver map')} {history : List (SerialEvent C)}

/-- After any calls, every page of the memory map is on the free list, still ahead of the
cursor, a table or root of a space in use, or was lost at one of the calls. -/
theorem frames_accounted (fresh : FreshStart map start.sys)
    (kernel : KernelAt root start.sys.toMachine) (rootFrame : IsFrame root)
    (reserved : root ∉ map.pages) (serial : SerialRun start history t) :
    t.sys.ptAlloc.alloc.freeList.length + (t.sys.ptAlloc.alloc.remaining map.view).length +
        (∑ a, if Used t.sys.toMachine a
          then (destroyedFrames t.sys.mem (t.sys.rootOf a)).length else 0) +
        (VmSpec.boot map.pages.length).lossOf (answersOf history) =
      map.pages.length := by
  obtain ⟨settled, -, abstracts⟩ := serialRun_abstracts
    (fresh.kernelSettled kernel rootFrame reserved) fresh.abstracts serial
  have total := VmSpec.after_frames (.boot map.pages.length) (answersOf history)
  have lost := VmSpec.after_lost (.boot map.pages.length) (answersOf history)
  rw [VmSpec.boot_frames] at total
  generalize (VmSpec.boot map.pages.length).after (answersOf history) = spec at *
  have tables : (∑ a, (spec.spaces a).elim 0 SpaceSpec.frames) =
      ∑ a, if Used t.sys.toMachine a
        then (destroyedFrames t.sys.mem (t.sys.rootOf a)).length else 0 := by
    apply Finset.sum_congr rfl
    intro a _
    have slot := abstracts.slots a
    cases known : spec.spaces a with
    | none =>
        rw [known] at slot
        exact (if_neg slot).symm
    | some space =>
        rw [known] at slot
        rw [if_pos slot.used]
        exact (slot.length_destroyedFrames settled.inv.trees.toTrees).symm
  have listed := abstracts.pool.listed
  have ahead := abstracts.pool.ahead
  have none : (VmSpec.boot map.pages.length).pool.lost = 0 := rfl
  rw [VmSpec.frames, FramePool.total, tables] at total
  omega

/-- A call is answered `OutOfMemory` only if no page is left, on the list or ahead of the
cursor, or if it asked for a space and all slots are in use. -/
theorem outOfMemory_justified {event : SerialEvent C} (fresh : FreshStart map start.sys)
    (kernel : KernelAt root start.sys.toMachine) (rootFrame : IsFrame root)
    (reserved : root ∉ map.pages) (serial : SerialRun start (event :: history) t)
    (refused : event.result = .handle (.error .outOfMemory)) :
    t.sys.ptAlloc.alloc.freeList = [] ∧ t.sys.ptAlloc.alloc.remaining map.view = [] ∨
      (∃ cpu, event.call = .newAddressSpace cpu) ∧ ∀ a, Used t.sys.toMachine a := by
  obtain ⟨-, prescribes, abstracts⟩ := serialRun_abstracts
    (fresh.kernelSettled kernel rootFrame reserved) fresh.abstracts serial
  let before := (VmSpec.boot map.pages.length).after (answersOf history)
  have answer : (before.step event.call).1 = event.result := prescribes.2
  have after : Abstracts t.sys (before.step event.call).2 := abstracts
  rcases before.step_exhausted event.call (answer.trans refused) with empty | ⟨new, same, full⟩
  · left
    obtain ⟨listed, ahead⟩ := FramePool.take_eq_none.mp empty
    exact ⟨List.eq_nil_of_length_eq_zero (after.pool.listed.trans listed),
      List.eq_nil_of_length_eq_zero (after.pool.ahead.trans ahead)⟩
  · refine Or.inr ⟨new, fun a => ?_⟩
    obtain ⟨space, known⟩ := Option.isSome_iff_exists.mp (full a)
    have slot := after.slots a
    rw [same, known] at slot
    exact slot.used

/-- Where the pages of the memory map lie makes no difference to any answer. -/
theorem answers_layoutFree {history' : List (SerialEvent C')}
    (fresh : FreshStart map start.sys) (kernel : KernelAt root start.sys.toMachine)
    (rootFrame : IsFrame root) (reserved : root ∉ map.pages)
    (serial : SerialRun start history t)
    (fresh' : FreshStart map' start'.sys) (kernel' : KernelAt root' start'.sys.toMachine)
    (rootFrame' : IsFrame root') (reserved' : root' ∉ map'.pages)
    (serial' : SerialRun start' history' t')
    (size : map.pages.length = map'.pages.length)
    (calls : (history.map fun event => event.call) = history'.map fun event => event.call) :
    answersOf history = answersOf history' := by
  obtain ⟨-, one, -⟩ := serialRun_abstracts
    (fresh.kernelSettled kernel rootFrame reserved) fresh.abstracts serial
  obtain ⟨-, two, -⟩ := serialRun_abstracts
    (fresh'.kernelSettled kernel' rootFrame' reserved') fresh'.abstracts serial'
  rw [← size] at two
  apply one.unique two
  rw [answersOf, answersOf, List.map_map, List.map_map]
  exact calls

end

/-! ### On machines with one page -/

def lowMap : BootMap :=
  .single { base := 0x200000, len := 0x1000, memType := .usable, flags := 0 } (by decide)

def highMap : BootMap :=
  .single { base := 0x700000, len := 0x1000, memType := .usable, flags := 0 } (by decide)

/-- A machine over a map of one entry. -/
def entryShared (map : BootMap) : Shared Bool (BootAllocOver map) where
  sys :=
    { Machine.boot (fun _ => 0) with
      ptAlloc := ⟨tinyAlloc⟩
      kas := some ⟨0x100000⟩
      kasHandle := some .kas }
  tlb := fun _ => []

theorem freshStart_entryShared {map : BootMap} (one : map.count = 1) :
    FreshStart map (entryShared map).sys where
  alloc := ⟨tinyBoot, (Option.some_get (by decide)).symm, one.symm⟩
  slots := by
    change ∀ i, ¬ Used (Machine.boot fun _ => 0) i
    decide
  kernel := nofun

/-- Two spaces are asked for; there is a frame for one. -/
theorem entryShared_asksTwice (map : BootMap) :
    ∃ (history : List (SerialEvent Bool)) (t : Shared Bool (BootAllocOver map)),
      SerialRun (entryShared map) history t ∧
      (history.map fun event => event.call) =
        [.newAddressSpace bootCpu, .newAddressSpace bootCpu] := by
  have created : SerialRun (entryShared map) _ _ :=
    SerialRun.start.call false (.newAddressSpace bootCpu) ⟨nofun, trivial⟩
  exact ⟨_, _, created.call true (.newAddressSpace bootCpu) ⟨nofun, trivial⟩, rfl⟩

theorem frames_accounted_lowMap :
    ∃ (history : List (SerialEvent Bool)) (t : Shared Bool (BootAllocOver lowMap)),
      SerialRun (entryShared lowMap) history t ∧ history ≠ [] ∧
      t.sys.ptAlloc.alloc.freeList.length +
          (t.sys.ptAlloc.alloc.remaining lowMap.view).length +
          (∑ a, if Used t.sys.toMachine a
            then (destroyedFrames t.sys.mem (t.sys.rootOf a)).length else 0) +
          (VmSpec.boot lowMap.pages.length).lossOf (answersOf history) =
        lowMap.pages.length := by
  obtain ⟨history, t, serial, calls⟩ := entryShared_asksTwice lowMap
  refine ⟨history, t, serial, ?_, frames_accounted (freshStart_entryShared rfl) ⟨rfl, rfl⟩
    (by decide) (by decide) serial⟩
  rintro rfl
  cases calls

theorem outOfMemory_justified_lowMap :
    ∃ (event : SerialEvent Bool) (history : List (SerialEvent Bool))
      (t : Shared Bool (BootAllocOver lowMap)),
      SerialRun (entryShared lowMap) (event :: history) t ∧
      event.result = .handle (.error .outOfMemory) ∧
      (t.sys.ptAlloc.alloc.freeList = [] ∧ t.sys.ptAlloc.alloc.remaining lowMap.view = [] ∨
        (∃ cpu, event.call = .newAddressSpace cpu) ∧ ∀ a, Used t.sys.toMachine a) := by
  have created : SerialRun (entryShared lowMap) _ _ :=
    SerialRun.start.call false (.newAddressSpace bootCpu) ⟨nofun, trivial⟩
  have again := created.call true (.newAddressSpace bootCpu) ⟨nofun, trivial⟩
  have refused : ((VmCall.newAddressSpace bootCpu).exec (Shared.view true
      (Shared.put false (entryShared lowMap)
        ((VmCall.newAddressSpace bootCpu).exec (Shared.view false (entryShared lowMap))).2))).1 =
      .handle (.error .outOfMemory) := by
    decide +kernel
  exact ⟨_, _, _, again, refused, outOfMemory_justified (freshStart_entryShared rfl) ⟨rfl, rfl⟩
    (by decide) (by decide) again refused⟩

theorem answers_layoutFree_pages :
    ∃ (history history' : List (SerialEvent Bool)) (t : Shared Bool (BootAllocOver lowMap))
      (t' : Shared Bool (BootAllocOver highMap)), SerialRun (entryShared lowMap) history t ∧
      SerialRun (entryShared highMap) history' t' ∧ answersOf history = answersOf history' := by
  obtain ⟨history, t, serial, calls⟩ := entryShared_asksTwice lowMap
  obtain ⟨history', t', serial', calls'⟩ := entryShared_asksTwice highMap
  exact ⟨history, history', t, t', serial, serial',
    answers_layoutFree (freshStart_entryShared rfl) ⟨rfl, rfl⟩ (by decide) (by decide) serial
      (freshStart_entryShared rfl) ⟨rfl, rfl⟩ (by decide) (by decide) serial' (by decide)
      (calls.trans calls'.symm)⟩

end RincOs
