/-
Module: RincOs.Proofs.ConcurrentVm
Purpose: The VM service is linearizable.  Every interleaving of its calls on any
  number of CPUs has the results, and once all calls have returned the state, of
  the same calls made one after the other in the order in which they were
  entered.
Trusted boundary: the access order of `RincOs.Kernel.VmService`
Main exports:
  VmCall.Allowed, VmEffect, vmCall_effect, SerialRun, Serialized,
  Serialized.enter, Serialized.access, Serialized.leave,
  concurrentVm_linearizable
-/
import RincOs.Proofs.VmFootprints

namespace RincOs

open Interleaving RadixForest LawfulFrameAlloc

variable {C A : Type}

/-! ### What a call changes for the other spaces

Footprints are fixed when a call is entered, and other calls come and go before it
returns.  They still fit because a call leaves the tables of all spaces but its own as
they are. -/

/-- The call is on a space in use, at a lower-half address. -/
structure VmCall.Allowed (k : Machine) (call : VmCall) : Prop where
  target : ∀ aspace, call.target = some aspace → ∃ a, aspace = .slot a ∧ Used k a
  lower : call.Lower

/-- The call of the backend behind a call of the service; `translate` changes
nothing. -/
def VmCall.backend : VmCall → Option Call
  | .newAddressSpace cpu => some (.new cpu)
  | .destroyAddressSpace aspace => some (.destroy aspace)
  | .map4k aspace v p flags => some (.map aspace v p flags)
  | .unmap4k aspace v => some (.unmap aspace v)
  | .protect4k aspace v flags => some (.protect aspace v flags)
  | .translate _ _ => none

theorem VmCall.exec_backend [PageTableFrameAlloc A] {call : VmCall} {inner : Call}
    (known : call.backend = some inner) (s : Sys A) :
    call.exec s = (.handle (inner.exec s).1, (inner.exec s).2) := by
  cases call <;> cases known <;> rfl

theorem VmCall.Allowed.lowerCall {k : Machine} {call : VmCall} {inner : Call}
    (may : call.Allowed k) (known : call.backend = some inner) : LowerCall k inner := by
  cases call with
  | newAddressSpace cpu =>
      cases known
      trivial
  | destroyAddressSpace aspace =>
      cases known
      exact may.target aspace rfl
  | map4k aspace v p flags =>
      cases known
      obtain ⟨a, same, used⟩ := may.target aspace rfl
      exact ⟨a, same, used, may.lower⟩
  | unmap4k aspace v =>
      cases known
      obtain ⟨a, same, used⟩ := may.target aspace rfl
      exact ⟨a, same, used, may.lower⟩
  | protect4k aspace v flags =>
      cases known
      obtain ⟨a, same, used⟩ := may.target aspace rfl
      exact ⟨a, same, used, may.lower⟩
  | translate aspace v => cases known

/-- The tables of a space depend on the other spaces in no way. -/
theorem HasTable.of_live {live live' : Fin maxAddressSpaces → Prop} {k : Machine}
    {a : Fin maxAddressSpaces} {path : List (Fin entryCount)} {p : PhysAddr}
    (table : HasTable live k a path p) (alive : live' a) : HasTable live' k a path p :=
  ⟨alive, table.admitted, table.reached⟩

theorem tableWords_congr {k k' : Machine} {a : Fin maxAddressSpaces}
    (same : ∀ path p, HasTable (Used k') k' a path p ↔ HasTable (Used k) k a path p) :
    tableWords k' a = tableWords k a := by
  ext x
  simp only [tableWords, Set.mem_ofPred_eq, same]

theorem Keeps.tableWords {live : Fin maxAddressSpaces → Prop} {k k' : Machine}
    {a : Fin maxAddressSpaces} (keeps : Keeps live k k') (alive : live a) (used : Used k a)
    (used' : Used k' a) : tableWords k' a = tableWords k a := by
  apply tableWords_congr
  intro path p
  constructor
  · intro table
    exact (keeps.hasTable_iff.mp (table.of_live alive)).of_live used
  · intro table
    exact (keeps.hasTable_iff.mpr (table.of_live alive)).of_live used'

section

variable [PageTableFrameAlloc A] [LawfulFrameAlloc A] {root : PhysAddr}

theorem LowerStep.kernelAt {live : Fin maxAddressSpaces → Prop} {a : Fin maxAddressSpaces}
    {s s' : Sys A} (step : LowerStep live a s s') (known : KernelAt root s.toMachine) :
    KernelAt root s'.toMachine := by
  rw [KernelAt, step.kernel.1, step.kernel.2]
  exact known

/-- The kernel space stays the one it is. -/
theorem call_kernelAt {s s' : Sys A} {call : Call} {result : Except MapError AddressSpace}
    (inv : RunInv s) (known : KernelAt root s.toMachine) (may : LowerCall s.toMachine call)
    (done : call.exec s = (result, s')) : KernelAt root s'.toMachine := by
  cases lowerCall_ends inv may done with
  | @new cpu =>
      rw [Call.exec, addressSpaceNew_adopted cpu known.1 known.2] at done
      rcases newFromKernel_cases root s with
        ⟨al, m, -, ends⟩ | ⟨f, al, m, -, ⟨-, ends⟩ | ⟨i, -, ends⟩⟩
      all_goals
        obtain ⟨-, rfl⟩ := Prod.mk.inj (ends.symm.trans done)
        exact known
  | destroy _ destroys =>
      rw [KernelAt, destroys.machine]
      exact known
  | map _ _ ends => exact (ends.lowerStep inv.trees).kernelAt known
  | unmap _ _ ends => exact (ends.lowerStep inv.trees).kernelAt known
  | protect _ _ ends => exact (ends.lowerStep inv.trees).kernelAt known

/-- The spaces in use after a call. -/
theorem call_used {s s' : Sys A} {call : Call} {result : Except MapError AddressSpace}
    (inv : RunInv s) (may : LowerCall s.toMachine call) (done : call.exec s = (result, s')) :
    (∀ a, Used s.toMachine a → call ≠ .destroy (.slot a) → Used s'.toMachine a) ∧
      ∀ cpu i, call = .new cpu → result = .ok (.slot i) → Used s'.toMachine i := by
  cases lowerCall_ends inv may done with
  | new ends =>
      cases ends with
      | invalidArgs adopts =>
          rw [used_congr adopts.asSlots]
          exact ⟨fun _ used _ => used, fun _ _ _ impossible => nomatch impossible⟩
      | outOfMemory _ _ _ _ slots =>
          rw [used_congr slots]
          exact ⟨fun _ used _ => used, fun _ _ _ impossible => nomatch impossible⟩
      | ok _ _ _ _ _ _ slots =>
          rw [used_newSlot slots]
          refine ⟨fun _ used _ => Or.inl used, fun _ j _ made => Or.inr ?_⟩
          cases made
          rfl
  | destroy _ destroys =>
      rw [destroys.used]
      refine ⟨fun b used other => ⟨used, ?_⟩, fun _ _ impossible => nomatch impossible⟩
      rintro rfl
      exact other rfl
  | map _ _ ends =>
      rw [used_congr (ends.lowerStep inv.trees).slots]
      exact ⟨fun _ used _ => used, fun _ _ impossible => nomatch impossible⟩
  | unmap _ _ ends =>
      rw [used_congr (ends.lowerStep inv.trees).slots]
      exact ⟨fun _ used _ => used, fun _ _ impossible => nomatch impossible⟩
  | protect _ _ ends =>
      rw [used_congr (ends.lowerStep inv.trees).slots]
      exact ⟨fun _ used _ => used, fun _ _ impossible => nomatch impossible⟩

/-- Changing a leaf moves no table. -/
theorem ReplaceEnds.tableWords {a : Fin maxAddressSpaces} {v : VirtAddr}
    {update : Bool → Word → Word} {s s' : Sys A} {r : Except MapError PUnit}
    (ends : ReplaceEnds (Used s.toMachine) a v update s (r, s')) (inv : RunInv s)
    (b : Fin maxAddressSpaces) :
    RincOs.tableWords s'.toMachine b = RincOs.tableWords s.toMachine b := by
  cases ends with
  | unaligned => rfl
  | notMapped => rfl
  | ok _ _ writes =>
      have used : Used s'.toMachine = Used s.toMachine := used_congr writes.write.asSlots
      apply tableWords_congr
      intro path p
      rw [used]
      exact writes.write.hasTable_iff inv.trees.toTrees

/-- What a call made alone does to the spaces. -/
structure VmEffect (root : PhysAddr) (call : VmCall) (s : Sys A) (result : VmResult)
    (s' : Sys A) : Prop where
  settled : KernelSettled root s'
  kept : ∀ a, Used s.toMachine a → call ≠ .destroyAddressSpace (.slot a) →
    Used s'.toMachine a
  words : ∀ a, Used s.toMachine a → (call.locks = true → call.target ≠ some (.slot a)) →
    tableWords s'.toMachine a = tableWords s.toMachine a
  made : ∀ cpu i, call = .newAddressSpace cpu → result = .handle (.ok (.slot i)) →
    Used s'.toMachine i

theorem vmCall_effect {call : VmCall} {s : Sys A} (settled : KernelSettled root s)
    (may : call.Allowed s.toMachine) :
    VmEffect root call s (call.exec s).1 (call.exec s).2 := by
  cases known : call.backend with
  | none =>
      cases call <;> cases known
      exact ⟨settled, fun _ used _ => used, fun _ _ _ => rfl,
        fun _ _ impossible => nomatch impossible⟩
  | some inner =>
      rw [VmCall.exec_backend known]
      have lower := may.lowerCall known
      have done : inner.exec s = ((inner.exec s).1, (inner.exec s).2) := rfl
      obtain ⟨kept, made⟩ := call_used settled.inv lower done
      have step := lowerCall_step settled.inv lower done
      have kept' : ∀ a, Used s.toMachine a → call ≠ .destroyAddressSpace (.slot a) →
          Used (inner.exec s).2.toMachine a := by
        intro a used other
        apply kept a used
        rintro rfl
        apply other
        cases call <;> cases known
        rfl
      have others : ∀ a, Used s.toMachine a → call.target ≠ some (.slot a) →
          tableWords (inner.exec s).2.toMachine a = tableWords s.toMachine a := by
        intro a used other
        have off : ¬ inner.On (.slot a) := by
          intro on
          apply other
          cases call <;> cases known
          · exact on.elim
          all_goals exact congrArg some on
        apply step.keeps.tableWords ⟨used, off⟩ used
        apply kept' a used
        rintro rfl
        exact other rfl
      refine ⟨⟨step.inv, call_kernelAt settled.inv settled.kernel lower done, settled.rootFrame,
        settled.spares.serves (lowerCall_serves settled.inv lower done)⟩, kept', ?words, ?made⟩
      case words =>
        intro a used apart
        by_cases locked : call.locks = true
        · exact others a used (apart locked)
        · cases call with
          | unmap4k aspace v =>
              cases known
              obtain ⟨b, rfl, alive⟩ := may.target aspace rfl
              exact (unmap4k_lower alive may.lower).tableWords settled.inv a
          | protect4k aspace v flags =>
              cases known
              obtain ⟨b, rfl, alive⟩ := may.target aspace rfl
              exact (protect4k_lower alive may.lower flags).tableWords settled.inv a
          | translate aspace v => cases known
          | newAddressSpace cpu => exact absurd rfl locked
          | destroyAddressSpace aspace => exact absurd rfl locked
          | map4k aspace v p flags => exact absurd rfl locked
      case made =>
        rintro cpu i rfl answer
        cases known
        apply made cpu i rfl
        injection answer

/-- The tables of two spaces have no word in common. -/
theorem RunInv.tableWords_disjoint {s : Sys A} (inv : RunInv s) {a b : Fin maxAddressSpaces}
    (other : a ≠ b) {x : Word} (one : x ∈ tableWords s.toMachine a) :
    x ∉ tableWords s.toMachine b := by
  obtain ⟨path, p, table, inside⟩ := one
  rintro ⟨rest, q, table', inside'⟩
  obtain rfl := frame_eq_of_inFrame (inv.trees.isFrame table) (inv.trees.isFrame table')
    inside inside'
  exact other (inv.trees.forest table table').1

end

/-! ### Calls that do not disturb each other

Two footprints are apart if the CPUs differ and the words do: two calls without the lock
on different spaces, or both only looking up; and a call without the lock next to the one
that has it.  Two calls under the lock are never under way together. -/

section

variable {c d : C} {a b : Fin maxAddressSpaces} {words words' : Set Word}

theorem page_apart_page {writes writes' : Bool} (cpus : c ≠ d)
    (separate : writes = true ∨ writes' = true → ∀ x ∈ words, x ∉ words') :
    (pageFootprint c a words writes).Apart (pageFootprint d b words' writes') := by
  constructor
  · rintro (x | _ | i | _ | _ | _ | _ | e) ⟨write, inside⟩
    case word => exact separate (Or.inl write) x inside
    case tlb =>
      obtain rfl : e = c := inside
      exact cpus
    all_goals exact inside.elim
  · rintro (x | _ | i | _ | _ | _ | _ | e) ⟨write, inside⟩
    case word => exact fun read => separate (Or.inr write) x read inside
    case tlb =>
      obtain rfl : e = d := inside
      exact cpus.symm
    all_goals exact inside.elim

theorem page_apart_locked {writes : Bool} {foreign : Set Word}
    {kept : Fin maxAddressSpaces → Prop} (cpus : c ≠ d) (own : kept a)
    (outside : words ⊆ foreign) :
    (pageFootprint c a words writes).Apart (lockedFootprint d foreign kept) := by
  constructor
  · rintro (x | _ | i | _ | _ | _ | _ | e) ⟨-, inside⟩
    case word => exact fun read => read (outside inside)
    case tlb =>
      obtain rfl : e = c := inside
      exact cpus
    all_goals exact inside.elim
  · rintro (x | _ | i | _ | _ | _ | _ | e) inside
    case word => exact fun read => inside (outside read)
    case tlb =>
      obtain rfl : e = d := inside
      exact cpus.symm
    case slot =>
      intro read
      obtain rfl : i = a := read
      exact inside own
    case nxe => exact inside.elim
    all_goals exact id

end

/-! ### The conditions on callers -/

theorem handlesAtStart_eq_true {handles : Fin maxAddressSpaces → Bool} {call : VmCall}
    {a : Fin maxAddressSpaces} :
    VmState.handlesAtStart handles call a = true ↔
      handles a = true ∧ call ≠ .destroyAddressSpace (.slot a) := by
  cases call with
  | destroyAddressSpace aspace =>
      cases aspace with
      | kas => simp [VmState.handlesAtStart]
      | slot b =>
          by_cases same : a = b
          · simp [VmState.handlesAtStart, same]
          · simp [VmState.handlesAtStart, same, Ne.symm same]
  | _ => simp [VmState.handlesAtStart]

theorem VmCall.not_shares_of_locks {call : VmCall} (locks : call.locks = true) :
    call.shares = false := by
  cases call <;> first | rfl | cases locks

theorem VmCall.footprint_page (c : C) (t : Shared C A) {call : VmCall} {a : Fin maxAddressSpaces}
    (unlocked : call.locks = false) (target : call.target = some (.slot a)) :
    call.footprint c t = pageFootprint c a (tableWords t.sys.toMachine a) (!call.shares) := by
  cases call <;> cases unlocked <;> cases target <;> rfl

theorem VmCall.footprint_locked (c : C) (t : Shared C A) {call : VmCall}
    (locks : call.locks = true) :
    call.footprint c t =
      lockedFootprint c (foreignWords t.sys.toMachine call.target)
        (OtherSpace t.sys.toMachine call.target) := by
  cases call <;> first | rfl | cases locks

theorem VmCall.target_of_unlocked {call : VmCall} (unlocked : call.locks = false) :
    ∃ aspace, call.target = some aspace := by
  cases call <;> first | exact ⟨_, rfl⟩ | cases unlocked

/-- A call that takes the lock is alone on its space. -/
theorem VmState.MayStart.alone {st : VmState C A} {call other : VmCall} {d : C}
    {program : Prog (Shared C A) VmResult} (may : st.MayStart call)
    (underWay : st.running d = some (other, program))
    (locks : call.locks = true ∨ other.locks = true) {a : Fin maxAddressSpaces}
    (target : call.target = some (.slot a)) : other.target ≠ some (.slot a) := by
  intro same
  obtain ⟨shares, shares'⟩ := may.exclusive d other program underWay (by simp [target])
    (same.trans target.symm)
  rcases locks with locks | locks
  · rw [VmCall.not_shares_of_locks locks] at shares
    cases shares
  · rw [VmCall.not_shares_of_locks locks] at shares'
    cases shares'

/-! ### Serial runs

The order of the serial run is the order in which the calls were entered.  `Serialized`
relates the run so far to it: `t` is the state after all entered calls have been made one
after the other, and completing the programs under way, in any order, leads to `t` too.
The results in `history` are therefore known when the calls are entered, before the calls
under way have got them. -/

/-- A call with its result. -/
structure SerialEvent (C : Type) where
  cpu : C
  call : VmCall
  result : VmResult

section

variable [PageTableFrameAlloc A] [DecidableEq C]

/-- Calls made one after the other, each of them as the uninterrupted function of the
backend on the view of its CPU.  The history has the latest call first. -/
inductive SerialRun (start : Shared C A) : List (SerialEvent C) → Shared C A → Prop where
  | start : SerialRun start [] start
  | call {history : List (SerialEvent C)} {s : Shared C A} (before : SerialRun start history s)
      (c : C) (call : VmCall) (may : call.Allowed s.sys.toMachine) :
      SerialRun start (⟨c, call, (call.exec (s.view c)).1⟩ :: history)
        (s.put c (call.exec (s.view c)).2)

/-- The call of the record is the one of the event, and has its result if it has
returned. -/
structure CallRecord.Answered (record : CallRecord C) (event : SerialEvent C) : Prop where
  cpu : record.cpu = event.cpu
  call : record.call = event.call
  returned : ∀ {result}, record.result = some result → result = event.result

/-- A call that is under way will have the result of the event. -/
structure Predicted (st : VmState C A) (record : CallRecord C) (event : SerialEvent C) : Prop
    extends record.Answered event where
  underWay : record.result = none → ∃ program,
    st.running record.cpu = some (record.call, program) ∧
      (program.run st.shared).1 = event.result

/-- The programs under way, with their footprints. -/
def VmState.pool (st : VmState C A) (footprints : C → Footprint (Cell C)) (c : C) :
    Option (Flight (Shared C A) VmResult (Cell C)) :=
  (st.running c).map fun flight => ⟨flight.2, footprints c⟩

omit [PageTableFrameAlloc A] in
theorem VmState.pool_update {st st' : VmState C A} {c : C}
    {flight : Option (VmCall × Prog (Shared C A) VmResult)}
    (running : st'.running = Function.update st.running c flight)
    (footprints : C → Footprint (Cell C)) (fp : Footprint (Cell C)) :
    st'.pool (Function.update footprints c fp) =
      Function.update (st.pool footprints) c (flight.map fun flight => ⟨flight.2, fp⟩) := by
  funext d
  by_cases same : d = c
  · subst same
    simp [VmState.pool, running]
  · simp [VmState.pool, running, same]

/-- Why a call under way disturbs no other: without the lock it uses the tables of a
space that was given to its caller; with the lock it leaves all such spaces alone but its
own. -/
inductive FlightOk (st : VmState C A) (k : Machine) (c : C) :
    VmCall → Footprint (Cell C) → Prop where
  | page {call : VmCall} {a : Fin maxAddressSpaces} (unlocked : call.locks = false)
      (target : call.target = some (.slot a)) (given : st.handles a = true) :
      FlightOk st k c call (pageFootprint c a (tableWords k a) (!call.shares))
  | locked {call : VmCall} {foreign : Set Word} {kept : Fin maxAddressSpaces → Prop}
      (locks : call.locks = true) (holds : st.lock = some c)
      (others : ∀ a, st.handles a = true → call.target ≠ some (.slot a) →
        kept a ∧ tableWords k a ⊆ foreign) :
      FlightOk st k c call (lockedFootprint c foreign kept)

omit [PageTableFrameAlloc A] [DecidableEq C] in
theorem FlightOk.holds {st : VmState C A} {k : Machine} {c : C} {call : VmCall}
    {fp : Footprint (Cell C)} (flight : FlightOk st k c call fp) (locks : call.locks = true) :
    st.lock = some c := by
  cases flight with
  | page unlocked =>
      rw [locks] at unlocked
      cases unlocked
  | locked _ holds => exact holds

omit [PageTableFrameAlloc A] [DecidableEq C] in
theorem FlightOk.mono {st st' : VmState C A} {k : Machine} {c : C} {call : VmCall}
    {fp : Footprint (Cell C)} (flight : FlightOk st k c call fp)
    (handles : ∀ {a}, st.handles a = true → st'.handles a = true)
    (locked : call.locks = true → st'.lock = st.lock ∧ st'.handles = st.handles) :
    FlightOk st' k c call fp := by
  cases flight with
  | page unlocked target given => exact .page unlocked target (handles given)
  | locked locks holds others =>
      obtain ⟨lock, same⟩ := locked locks
      exact .locked locks (lock.trans holds) (same ▸ others)

variable [LawfulFrameAlloc A]

/-- The run so far against a serial run of the calls that were entered: `t` is the state
in which this serial run ends. -/
structure Serialized (root : PhysAddr) (start : Shared C A) (st : VmState C A)
    (history : List (SerialEvent C)) (t : Shared C A) (footprints : C → Footprint (Cell C)) :
    Prop where
  serial : SerialRun start history t
  settled : KernelSettled root t.sys
  used : ∀ {a}, st.handles a = true → Used t.sys.toMachine a
  completes : Completes Shared.cells (st.pool footprints) st.shared t
  flights : ∀ {c call program}, st.running c = some (call, program) →
    FlightOk st t.sys.toMachine c call (footprints c)
  made : ∀ {c cpu program i}, st.running c = some (.newAddressSpace cpu, program) →
    (program.run st.shared).1 = .handle (.ok (.slot i)) → Used t.sys.toMachine i
  answers : List.Forall₂ (Predicted st) st.log history

variable {root : PhysAddr} {start t : Shared C A} {st : VmState C A}
variable {history : List (SerialEvent C)} {footprints : C → Footprint (Cell C)}

/-- The effect of a call made alone on CPU `c`. -/
theorem serial_effect (c : C) {call : VmCall} (settled : KernelSettled root t.sys)
    (may : call.Allowed t.sys.toMachine) :
    VmEffect root call t.sys (call.exec (t.view c)).1 (t.put c (call.exec (t.view c)).2).sys := by
  have effect : VmEffect root call (t.view c) (call.exec (t.view c)).1 (call.exec (t.view c)).2 :=
    vmCall_effect (settled.withTlb _) ⟨may.target, may.lower⟩
  exact ⟨effect.settled.withTlb _, effect.kept, effect.words, effect.made⟩

theorem Serialized.initial (settled : KernelSettled root start.sys)
    (footprints : C → Footprint (Cell C)) :
    Serialized root start (.initial start) [] start footprints where
  serial := .start
  settled := settled
  used given := nomatch given
  completes := Completes.nothing (fun _ => rfl) start
  flights under := nomatch under
  made under := nomatch under
  answers := .nil

/-! ### Entering a call

The one step at which the serial run grows.  The new call runs in `t`, behind all others,
although it finds a state in which they are still under way: its footprint is apart from
theirs, so that it cannot tell. -/

/-- The state after CPU `c` has entered a call. -/
def VmState.entered (st : VmState C A) (c : C) (call : VmCall) : VmState C A :=
  { st with
    running := Function.update st.running c (some (call, call.program c))
    lock := if call.locks then some c else st.lock
    handles := VmState.handlesAtStart st.handles call
    log := ⟨c, call, none⟩ :: st.log }

theorem Serialized.allowed {call : VmCall}
    (inv : Serialized root start st history t footprints) (may : st.MayStart call) :
    call.Allowed t.sys.toMachine where
  target aspace known := by
    obtain ⟨a, same, given⟩ := may.given aspace known
    exact ⟨a, same, inv.used given⟩
  lower := may.lower

/-- A call that may start keeps away from those under way. -/
theorem Serialized.apart {call other : VmCall} {c d : C}
    {program : Prog (Shared C A) VmResult}
    (inv : Serialized root start st history t footprints) (idle : st.running c = none)
    (free : call.locks = true → st.lock = none) (may : st.MayStart call)
    (underWay : st.running d = some (other, program)) :
    (call.footprint c t).Apart (footprints d) := by
  have cpus : c ≠ d := by
    rintro rfl
    rw [idle] at underWay
    cases underWay
  have flight := inv.flights underWay
  generalize footprints d = fp at flight
  cases locks : call.locks with
  | false =>
      obtain ⟨aspace, target⟩ := VmCall.target_of_unlocked locks
      obtain ⟨a, rfl, given⟩ := may.given aspace target
      rw [VmCall.footprint_page c t locks target]
      cases flight with
      | @page b _ target' =>
          apply page_apart_page cpus
          intro write
          by_cases same : a = b
          · -- two calls on one space only read
            obtain ⟨shares, shares'⟩ := may.exclusive d other program underWay
              (by simp [target]) (by rw [target, target', same])
            simp [shares, shares'] at write
          · exact fun x inside => inv.settled.inv.tableWords_disjoint same inside
      | locked locks' holds others =>
          obtain ⟨own, outside⟩ := others a given (may.alone underWay (Or.inr locks') target)
          exact page_apart_locked cpus own outside
  | true =>
      rw [VmCall.footprint_locked c t locks]
      cases flight with
      | @page b _ target' given =>
          have other : OtherSpace t.sys.toMachine call.target b :=
            ⟨inv.used given, fun target => may.alone underWay (Or.inl locks) target target'⟩
          have outside : tableWords t.sys.toMachine b ⊆
              foreignWords t.sys.toMachine call.target := fun x inside => ⟨b, other, inside⟩
          exact (page_apart_locked cpus.symm other outside).symm
      | locked locks' holds =>
          rw [free locks] at holds
          cases holds

/-- The calls under way go on as they would have without the new one. -/
theorem FlightOk.entered {call other : VmCall} {c d : C} {k' : Sys A} {result : VmResult}
    {program : Prog (Shared C A) VmResult} {fp : Footprint (Cell C)}
    (flight : FlightOk st t.sys.toMachine d other fp)
    (inv : Serialized root start st history t footprints)
    (free : call.locks = true → st.lock = none) (may : st.MayStart call)
    (underWay : st.running d = some (other, program))
    (effect : VmEffect root call t.sys result k') :
    FlightOk (st.entered c call) k'.toMachine d other fp := by
  cases flight with
  | @page a unlocked target given =>
      have apart : call.locks = true → call.target ≠ some (.slot a) :=
        fun locks same => may.alone underWay (Or.inl locks) same target
      rw [← effect.words a (inv.used given) apart]
      refine .page unlocked target (handlesAtStart_eq_true.mpr ⟨given, ?_⟩)
      rintro rfl
      exact apart rfl rfl
  | locked locks holds others =>
      have unlocked : call.locks = false := by
        by_contra locked
        rw [free (by simpa using locked)] at holds
        cases holds
      refine .locked locks (by simpa [VmState.entered, unlocked] using holds) fun a given => ?_
      have given := (handlesAtStart_eq_true.mp given).1
      rw [effect.words a (inv.used given) (by simp [unlocked])]
      exact others a given

/-- The new call is right about what it leaves alone. -/
theorem Serialized.flight_new {call : VmCall} (c : C) {k' : Sys A} {result : VmResult}
    (inv : Serialized root start st history t footprints) (may : st.MayStart call)
    (effect : VmEffect root call t.sys result k') :
    FlightOk (st.entered c call) k'.toMachine c call (call.footprint c t) := by
  cases locks : call.locks with
  | false =>
      obtain ⟨aspace, target⟩ := VmCall.target_of_unlocked locks
      obtain ⟨a, rfl, given⟩ := may.given aspace target
      rw [VmCall.footprint_page c t locks target,
        ← effect.words a (inv.used given) (by simp [locks])]
      refine .page locks target (handlesAtStart_eq_true.mpr ⟨given, ?_⟩)
      rintro rfl
      cases locks
  | true =>
      rw [VmCall.footprint_locked c t locks]
      refine .locked locks (by simp [VmState.entered, locks]) fun a given apart => ?_
      have used := inv.used (handlesAtStart_eq_true.mp given).1
      refine ⟨⟨used, apart⟩, fun x inside => ⟨a, ⟨used, apart⟩, ?_⟩⟩
      rwa [effect.words a used fun _ => apart] at inside

variable [LocalFrameAlloc A]

theorem Serialized.enter {call : VmCall} {c : C}
    (inv : Serialized root start st history t footprints) (idle : st.running c = none)
    (free : call.locks = true → st.lock = none) (may : st.MayStart call) :
    Serialized root start (st.entered c call)
      (⟨c, call, (call.exec (t.view c)).1⟩ :: history) (t.put c (call.exec (t.view c)).2)
      (Function.update footprints c (call.footprint c t)) := by
  have allowed := inv.allowed may
  have effect := serial_effect c inv.settled allowed
  have confined := program_confined c inv.settled allowed.target allowed.lower
  have old : ∀ {d}, d ≠ c → (st.entered c call).running d = st.running d :=
    fun other => Function.update_of_ne other _ _
  have new : (st.entered c call).running c = some (call, call.program c) :=
    Function.update_self ..
  have notIdle : ∀ {d flight}, st.running d = some flight → d ≠ c := by
    rintro d flight underWay rfl
    rw [idle] at underWay
    cases underWay
  obtain ⟨completes, sameResult⟩ := inv.completes.launch (i := c)
    (f := ⟨call.program c, call.footprint c t⟩) (by simp [VmState.pool, idle]) confined
    (by
      intro d g known
      obtain ⟨⟨other, program⟩, underWay, rfl⟩ := Option.map_eq_some_iff.mp known
      exact inv.apart idle free may underWay)
  have ran : (call.program c).run t = t.lift c (call.exec (t.view c)) := program_run c t call
  rw [ran] at completes sameResult
  refine ⟨.call inv.serial c call allowed, effect.settled, ?used, ?completes, ?flights, ?made,
    .cons ?first ?others⟩
  case used =>
    intro a given
    obtain ⟨given, kept⟩ := handlesAtStart_eq_true.mp given
    exact effect.kept a (inv.used given) kept
  case completes =>
    rw [VmState.pool_update rfl]
    exact completes
  case flights =>
    intro d other program underWay
    by_cases same : d = c
    · subst same
      obtain ⟨rfl, -⟩ := Prod.mk.inj (Option.some.inj (new.symm.trans underWay))
      rw [Function.update_self]
      exact inv.flight_new d may effect
    · rw [old same] at underWay
      rw [Function.update_of_ne same]
      exact (inv.flights underWay).entered inv free may underWay effect
  case made =>
    intro d cpu program i underWay answer
    by_cases same : d = c
    · subst same
      obtain ⟨rfl, rfl⟩ := Prod.mk.inj (Option.some.inj (new.symm.trans underWay))
      exact effect.made cpu i rfl (sameResult.symm.trans answer)
    · rw [old same] at underWay
      apply effect.kept i (inv.made underWay answer)
      -- a second call under the lock cannot start
      rintro rfl
      have holds := (inv.flights underWay).holds rfl
      rw [free rfl] at holds
      cases holds
  case first => exact ⟨⟨rfl, rfl, nofun⟩, fun _ => ⟨_, new, sameResult⟩⟩
  case others =>
    refine inv.answers.imp fun record event predicted => ⟨predicted.toAnswered, fun isOpen => ?_⟩
    obtain ⟨program, underWay, answer⟩ := predicted.underWay isOpen
    exact ⟨program, (old (notIdle underWay)).trans underWay, answer⟩

/-! ### Making an access

The serial run stays as it is.  The access changes cells of its own call only, and
completing the programs under way still leads to `t`. -/

omit [LocalFrameAlloc A] in
theorem Serialized.access {call : VmCall} {c : C} {act : Shared C A → Shared C A}
    {next : Shared C A → Prog (Shared C A) VmResult}
    (inv : Serialized root start st history t footprints)
    (underWay : st.running c = some (call, .step act next)) :
    Serialized root start
      { st with
        shared := act st.shared
        running := Function.update st.running c (some (call, next st.shared)) }
      history t footprints := by
  have flying : st.pool footprints c = some ⟨.step act next, footprints c⟩ := by
    simp [VmState.pool, underWay]
  generalize afterwards : Function.update st.running c (some (call, next st.shared)) = running
  -- nobody's result changes
  have onward : ∀ {d other program}, st.running d = some (other, program) →
      ∃ program', running d = some (other, program') ∧
        (program'.run (act st.shared)).1 = (program.run st.shared).1 := by
    intro d other program before
    rw [← afterwards]
    by_cases same : d = c
    · subst same
      cases underWay.symm.trans before
      exact ⟨_, Function.update_self .., rfl⟩
    · have known : st.pool footprints d = some ⟨program, footprints d⟩ := by
        simp [VmState.pool, before]
      exact ⟨program, (Function.update_of_ne same ..).trans before,
        inv.completes.result_unseen flying known same⟩
  have backward : ∀ {d other program'}, running d = some (other, program') →
      ∃ program, st.running d = some (other, program) ∧
        (program'.run (act st.shared)).1 = (program.run st.shared).1 := by
    intro d other program' now
    cases before : st.running d with
    | none =>
        have idle : d ≠ c := by
          rintro rfl
          cases underWay.symm.trans before
        rw [← afterwards, Function.update_of_ne idle, before] at now
        cases now
    | some flight =>
        obtain ⟨program'', now', same⟩ := onward before
        cases now'.symm.trans now
        exact ⟨flight.2, rfl, same⟩
  refine ⟨inv.serial, inv.settled, inv.used, ?completes, ?flights, ?made, ?answers⟩
  case completes =>
    rw [← Function.update_eq_self c footprints, VmState.pool_update afterwards.symm]
    exact inv.completes.advance flying
  case flights =>
    intro d other program' now
    obtain ⟨program, before, -⟩ := backward now
    exact (inv.flights before).mono id fun _ => ⟨rfl, rfl⟩
  case made =>
    intro d cpu program' i now answer
    obtain ⟨program, before, same⟩ := backward now
    exact inv.made before (same.symm.trans answer)
  case answers =>
    refine inv.answers.imp fun record event predicted => ⟨predicted.toAnswered, fun isOpen => ?_⟩
    obtain ⟨program, before, answer⟩ := predicted.underWay isOpen
    obtain ⟨program', now, same⟩ := onward before
    exact ⟨program', now, same.trans answer⟩

/-! ### Returning

The program is at its end and its cells have their final values, so it can leave the
pool.  Its result is the one predicted for it. -/

theorem handlesAtReturn_mono {handles : Fin maxAddressSpaces → Bool} {call : VmCall}
    {result : VmResult} {a : Fin maxAddressSpaces} (given : handles a = true) :
    VmState.handlesAtReturn handles call result a = true := by
  unfold VmState.handlesAtReturn
  split
  · rw [Function.update_apply]
    split
    · rfl
    · exact given
  · exact given

theorem handlesAtReturn_new {handles : Fin maxAddressSpaces → Bool} {call : VmCall}
    {result : VmResult} {a : Fin maxAddressSpaces}
    (given : VmState.handlesAtReturn handles call result a = true) :
    handles a = true ∨ ∃ cpu, call = .newAddressSpace cpu ∧ result = .handle (.ok (.slot a)) := by
  unfold VmState.handlesAtReturn at given
  split at given
  · rename_i cpu i
    by_cases same : a = i
    · exact Or.inr ⟨cpu, rfl, by rw [same]⟩
    · rw [Function.update_of_ne same] at given
      exact Or.inl given
  · exact Or.inl given

theorem handlesAtReturn_unlocked {handles : Fin maxAddressSpaces → Bool} {call : VmCall}
    (result : VmResult) (unlocked : call.locks = false) :
    VmState.handlesAtReturn handles call result = handles := by
  cases call <;> first | rfl | cases unlocked

omit [LocalFrameAlloc A] in
theorem Serialized.leave {call : VmCall} {c : C} {result : VmResult}
    (inv : Serialized root start st history t footprints)
    (underWay : st.running c = some (call, .done result)) :
    Serialized root start
      { st with
        running := Function.update st.running c none
        lock := if call.locks then none else st.lock
        handles := VmState.handlesAtReturn st.handles call result
        log := st.log.map (VmState.closeRecord c result) }
      history t footprints := by
  have flying : st.pool footprints c = some ⟨.done result, footprints c⟩ := by
    simp [VmState.pool, underWay]
  have still : ∀ {d flight}, Function.update st.running c none d = some flight →
      d ≠ c ∧ st.running d = some flight := by
    intro d flight now
    by_cases same : d = c
    · subst same
      rw [Function.update_self] at now
      cases now
    · rw [Function.update_of_ne same] at now
      exact ⟨same, now⟩
  refine ⟨inv.serial, inv.settled, ?used, ?completes, ?flights, ?made, ?answers⟩
  case used =>
    intro a given
    rcases handlesAtReturn_new given with given | ⟨cpu, rfl, rfl⟩
    · exact inv.used given
    · exact inv.made underWay rfl
  case completes =>
    rw [← Function.update_eq_self c footprints, VmState.pool_update rfl]
    exact inv.completes.land flying
  case flights =>
    intro d other program now
    obtain ⟨different, before⟩ := still now
    refine (inv.flights before).mono handlesAtReturn_mono fun locks => ?_
    -- the lock is not held by two
    have unlocked : call.locks = false := by
      by_contra locked
      have mine := (inv.flights underWay).holds (by simpa using locked)
      have other := (inv.flights before).holds locks
      exact different (Option.some.inj (other.symm.trans mine))
    exact ⟨by simp [unlocked], handlesAtReturn_unlocked result unlocked⟩
  case made => exact fun now => inv.made (still now).2
  case answers =>
    rw [List.forall₂_map_left_iff]
    refine inv.answers.imp fun record event predicted => ?_
    by_cases returning : record.cpu = c ∧ record.result.isNone
    · obtain ⟨program, before, answer⟩ :=
        predicted.underWay (Option.isNone_iff_eq_none.mp returning.2)
      rw [returning.1, underWay] at before
      cases before
      rw [VmState.closeRecord, if_pos returning]
      refine ⟨⟨predicted.cpu, predicted.call, ?_⟩, nofun⟩
      rintro _ ⟨⟩
      exact answer
    · rw [VmState.closeRecord, if_neg returning]
      refine ⟨predicted.toAnswered, fun isOpen => ?_⟩
      obtain ⟨program, before, answer⟩ := predicted.underWay isOpen
      have different : record.cpu ≠ c := fun same => returning ⟨same, by simp [isOpen]⟩
      exact ⟨program, (Function.update_of_ne different ..).trans before, answer⟩

/-! ### Whole runs -/

theorem serialized_of_run (settled : KernelSettled root start.sys)
    (run : VmRun (.initial start) st) :
    ∃ history t footprints, Serialized root start st history t footprints := by
  induction run with
  | refl => exact ⟨[], start, _, .initial settled fun c => lockedFootprint c ∅ fun _ => True⟩
  | step _ next inductionHypothesis =>
      obtain ⟨history, t, footprints, inv⟩ := inductionHypothesis
      cases next with
      | start c call idle free may => exact ⟨_, _, _, inv.enter idle free may⟩
      | access c underWay => exact ⟨_, _, _, inv.access underWay⟩
      | ret c underWay => exact ⟨_, _, _, inv.leave underWay⟩

end

section

variable {map : BootMap}

/-- The boot allocator looks at no memory but clears what it hands out. -/
instance bootAlloc_local (map : BootMap) : LocalFrameAlloc (BootAllocOver map) where
  answer al m m' := by
    rcases one : allocFrame4k al m with ⟨frame, after, n⟩
    rcases two : allocFrame4k al m' with ⟨frame', after', n'⟩
    obtain ⟨taken, -⟩ := bootAlloc_cases one
    obtain ⟨taken', -⟩ := bootAlloc_cases two
    obtain ⟨rfl, same⟩ := Prod.mk.inj (taken.symm.trans taken')
    cases after
    cases after'
    exact ⟨rfl, congrArg BootAllocOver.mk same.symm⟩
  words al m m' x before := by
    rcases one : allocFrame4k al m with ⟨frame, after, n⟩
    rcases two : allocFrame4k al m' with ⟨frame', after', n'⟩
    obtain ⟨taken, rfl⟩ := bootAlloc_cases one
    obtain ⟨taken', rfl⟩ := bootAlloc_cases two
    obtain ⟨rfl, -⟩ := Prod.mk.inj (taken.symm.trans taken')
    cases frame with
    | none => exact before
    | some f => simp [zeroFrame, before]

theorem FreshStart.kernelSettled {start : Sys (BootAllocOver map)} {root : PhysAddr}
    (fresh : FreshStart map start) (kernel : KernelAt root start.toMachine)
    (rootFrame : IsFrame root) (reserved : root ∉ map.pages) : KernelSettled root start where
  inv := fresh.runInv
  kernel := kernel
  rootFrame := rootFrame
  spares := by
    rintro al - f held rfl
    exact reserved held.1

/-- Every interleaving of calls has a serial history of the same calls, in the order in
which they were entered, in which the calls that have returned have the same results.
When no call is under way, the state is the one the serial history leads to, and every
frame has at most one place in it. -/
theorem concurrentVm_linearizable [DecidableEq C] {root : PhysAddr}
    {start : Shared C (BootAllocOver map)} {st : VmState C (BootAllocOver map)}
    (fresh : FreshStart map start.sys) (kernel : KernelAt root start.sys.toMachine)
    (rootFrame : IsFrame root) (reserved : root ∉ map.pages)
    (run : VmRun (.initial start) st) :
    ∃ history final, SerialRun start history final ∧
      List.Forall₂ CallRecord.Answered st.log history ∧
      ((∀ c, st.running c = none) →
        st.shared = final ∧ FrameOwnership map st.shared.sys) := by
  obtain ⟨history, final, footprints, inv⟩ :=
    serialized_of_run (fresh.kernelSettled kernel rootFrame reserved) run
  refine ⟨history, final, inv.serial, inv.answers.imp fun _ _ => Predicted.toAnswered,
    fun idle => ?_⟩
  obtain rfl : final = st.shared :=
    inv.completes.eq cells_injective fun c => by simp [VmState.pool, idle c]
  exact ⟨rfl, inv.settled.inv.frameOwnership⟩

end

/-! ### Two CPUs on the small machine -/

section

variable [PageTableFrameAlloc A] [DecidableEq C]

/-- A call under way can go on to its end while the others wait. -/
theorem VmRun.finish {start : VmState C A} {c : C} {call : VmCall}
    (program : Prog (Shared C A) VmResult) {st : VmState C A} (run : VmRun start st)
    (underWay : st.running c = some (call, program)) :
    VmRun start
      { shared := (program.run st.shared).2
        running := Function.update st.running c none
        lock := if call.locks then none else st.lock
        handles := VmState.handlesAtReturn st.handles call (program.run st.shared).1
        log := st.log.map (VmState.closeRecord c (program.run st.shared).1) } := by
  induction program generalizing st with
  | done result => exact run.step (.ret c underWay)
  | step act next inductionHypothesis =>
      have onward := inductionHypothesis st.shared (run.step (.access c underWay))
        (Function.update_self ..)
      rw [Function.update_idem] at onward
      exact onward

/-- A call that is made while nothing is under way. -/
theorem VmRun.alone {start st : VmState C A} (run : VmRun start st) (c : C) (call : VmCall)
    (idle : ∀ d, st.running d = none) (free : st.lock = none) (may : st.MayStart call) :
    ∃ st' : VmState C A, VmRun start st' ∧ (∀ d, st'.running d = none) ∧ st'.lock = none ∧
      st'.shared = ((call.program c).run st.shared).2 ∧
      st'.handles = VmState.handlesAtReturn (VmState.handlesAtStart st.handles call) call
        ((call.program c).run st.shared).1 := by
  refine ⟨_, (run.step (.start c call (idle c) (fun _ => free) may)).finish _
    (Function.update_self ..), fun d => ?_, ?_, rfl, rfl⟩
  · by_cases same : d = c <;> simp [same, idle d]
  · cases call.locks <;> simp [free]

end

/-- The small machine after its kernel space was adopted, with nothing cached. -/
def tinyShared : Shared Bool (BootAllocOver tinyMap) where
  sys := { tinyStart with kas := some ⟨0x100000⟩, kasHandle := some .kas }
  tlb := fun _ => []

theorem freshStart_tinyShared : FreshStart tinyMap tinyShared.sys where
  alloc := freshStart_tinyStart.alloc
  slots := freshStart_tinyStart.slots
  kernel := by decide

/-- One CPU creates two spaces; then the other enters a look-up of a page in the second, and
the first maps a page in the first. -/
theorem twoCpus_underWay :
    ∃ st : VmState Bool (BootAllocOver tinyMap), VmRun (.initial tinyShared) st ∧
      (∃ program, st.running true = some (.translate (.slot 1) 0x400000, program)) ∧
      ∃ program, st.running false = some (.map4k (.slot 0) 0x400000 0x7000 .user, program) := by
  have alone : ∀ {call : VmCall} {st : VmState Bool (BootAllocOver tinyMap)},
      (∀ d, st.running d = none) → ∀ d other program, st.running d = some (other, program) →
        call.target ≠ none → other.target = call.target →
          call.shares = true ∧ other.shares = true := by
    intro call st idle d other program underWay
    rw [idle d] at underWay
    cases underWay
  have nothing : VmRun (.initial tinyShared) (.initial tinyShared) := .refl
  obtain ⟨one, runOne, idleOne, freeOne, sharedOne, handlesOne⟩ := nothing.alone false
    (.newAddressSpace bootCpu) (fun _ => rfl) rfl ⟨nofun, alone fun _ => rfl, trivial⟩
  obtain ⟨two, runTwo, idleTwo, freeTwo, -, handlesTwo⟩ := runOne.alone false
    (.newAddressSpace bootCpu) idleOne freeOne ⟨nofun, alone idleOne, trivial⟩
  rw [sharedOne, handlesOne] at handlesTwo
  have first : two.handles 0 = true := by
    rw [handlesTwo]
    decide +kernel
  have second : two.handles 1 = true := by
    rw [handlesTwo]
    decide +kernel
  have lower : LowerHalf 0x400000 := by decide
  have entered := runTwo.step (.start true (.translate (.slot 1) 0x400000) (idleTwo true) nofun
    ⟨fun _ known => ⟨1, (Option.some.inj known).symm, second⟩, alone idleTwo, lower⟩)
  have waiting : Function.update two.running true
      (some (.translate (.slot 1) 0x400000, (VmCall.translate (.slot 1) 0x400000).program true))
      false = none := by simp [idleTwo]
  have both := entered.step (.start false (.map4k (.slot 0) 0x400000 0x7000 .user) waiting
    (fun _ => freeTwo) ⟨fun _ known => ⟨0, (Option.some.inj known).symm, first⟩, ?_, lower⟩)
  · refine ⟨_, both, ⟨(VmCall.translate (.slot 1) 0x400000).program true, ?_⟩,
      (VmCall.map4k (.slot 0) 0x400000 0x7000 .user).program false, ?_⟩
    · simp
    · simp
  · intro c other program underWay _ same
    cases c with
    | false => cases waiting.symm.trans underWay
    | true =>
        simp only [Function.update_self, Option.some.injEq, Prod.mk.injEq] at underWay
        rw [← underWay.1] at same
        cases same

/-- Two calls are under way at the same time. -/
theorem concurrentVm_linearizable_twoCpus :
    ∃ st : VmState Bool (BootAllocOver tinyMap), VmRun (.initial tinyShared) st ∧
      (∀ c, st.running c ≠ none) ∧
      ∃ history final, SerialRun tinyShared history final ∧
        List.Forall₂ CallRecord.Answered st.log history ∧
        ((∀ c, st.running c = none) →
          st.shared = final ∧ FrameOwnership tinyMap st.shared.sys) := by
  obtain ⟨st, run, ⟨translating, look⟩, mapping, change⟩ := twoCpus_underWay
  refine ⟨st, run, fun c => ?_, concurrentVm_linearizable freshStart_tinyShared ⟨rfl, rfl⟩
    (by decide) (by decide) run⟩
  cases c
  · simp [change]
  · simp [look]

end RincOs
