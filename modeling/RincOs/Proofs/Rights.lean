/-
Module: RincOs.Proofs.Rights
Purpose: The rights the processor grants in the lower half of the created spaces,
  compared with the flags the last successful call on the page asked for.
Trusted boundary: none
Main exports:
  Event.grant, grantedFlags, LeavesGranted, leavesGranted_of_run, hwWalk_lower,
  RightsBounded
-/
import RincOs.Proofs.KernelHalf

namespace RincOs

open RadixForest LawfulFrameAlloc

variable {A : Type}

/-! ### What was asked for -/

/-- The flags granted for page `n` of space `a` after the event, if `old` were
granted before it.  Only calls that succeed count. -/
def Event.grant (a : Fin maxAddressSpaces) (n : Nat) (old : Option MapFlags) :
    Event → Option MapFlags
  | ⟨.map target v _ flags, .ok _⟩ | ⟨.protect target v flags, .ok _⟩ =>
      if target = .slot a ∧ pageOf v = n then some flags else old
  | ⟨.unmap target v, .ok _⟩ => if target = .slot a ∧ pageOf v = n then none else old
  | ⟨.new _, .ok handle⟩ => if handle = .slot a then none else old
  | _ => old

/-- The flags of the last successful `map_4k` or `protect_4k` on page `n` of
space `a`, unless the page was unmapped or the space created anew since. -/
def grantedFlags (a : Fin maxAddressSpaces) (n : Nat) (history : List Event) :
    Option MapFlags :=
  history.foldr (fun event old => event.grant a n old) none

theorem grantedFlags_cons (a : Fin maxAddressSpaces) (n : Nat) (event : Event)
    (history : List Event) :
    grantedFlags a n (event :: history) = event.grant a n (grantedFlags a n history) := rfl

/-- A failed call grants nothing and takes nothing away. -/
theorem Event.grant_error (a : Fin maxAddressSpaces) (n : Nat) (old : Option MapFlags)
    (call : Call) (e : MapError) : Event.grant a n old ⟨call, .error e⟩ = old := by
  cases call <;> rfl

/-- The leaf entry carries exactly these flags. -/
def Spells (nxe : Bool) (flags : MapFlags) (e : Word) : Prop :=
  ∃ p, e = leafWord nxe p flags

/-! ### Leaf entries over one call -/

section

variable [PageTableFrameAlloc A] [LawfulFrameAlloc A]
variable {live : Fin maxAddressSpaces → Prop} {a : Fin maxAddressSpaces}
variable {s s' : Sys A} {v : VirtAddr} {r : Except MapError PUnit}

/-- From `s` to `s'` the leaf entry of one page may become `new`, and all the
others stay. -/
def LeafUpdate (live : Fin maxAddressSpaces → Prop) (a : Fin maxAddressSpaces)
    (v : VirtAddr) (new : Option Word) (s s' : Sys A) : Prop :=
  ∀ b w, live b → LowerHalf w → leafAt s'.mem (s'.rootOf b) w =
    if b = a ∧ pageOf w = pageOf v then new else leafAt s.mem (s.rootOf b) w

theorem MapEnds.leafUpdate {p : PhysAddr} {flags : MapFlags} (lower : LowerHalf v)
    (ends : MapEnds live a v p flags s (r, s')) :
    (r = .ok ⟨⟩ ∧ LeafUpdate live a v (some (leafWord s.nxeEnabled p flags)) s s') ∨
      ((∃ e, r = .error e) ∧ ∀ {b w}, live b → LowerHalf w →
        leafAt s'.mem (s'.rootOf b) w = leafAt s.mem (s.rootOf b) w) := by
  cases ends with
  | unaligned => exact Or.inr ⟨⟨_, rfl⟩, fun _ _ => rfl⟩
  | outOfMemory _ ext => exact Or.inr ⟨⟨_, rfl⟩, ext.leafAt_eq⟩
  | alreadyMapped _ ext => exact Or.inr ⟨⟨_, rfl⟩, ext.leafAt_eq⟩
  | ok _ ext _ writes =>
      refine Or.inl ⟨rfl, fun b w alive lower' => ?_⟩
      rw [writes.write.leafAt_eq ext.inv.toTrees alive lower lower',
        ext.leafAt_eq alive lower', Option.filter_some, present_leafWord]
      rfl

omit [PageTableFrameAlloc A] [LawfulFrameAlloc A] in
theorem ReplaceEnds.leafUpdate {update : Bool → Word → Word} (trees : Trees live s.toMachine)
    (lower : LowerHalf v) (ends : ReplaceEnds live a v update s (r, s')) :
    (r = .ok ⟨⟩ ∧ ∃ e, leafAt s.mem (s.rootOf a) v = some e ∧
        LeafUpdate live a v ((some (update s.nxeEnabled e)).filter present) s s') ∨
      ((∃ e, r = .error e) ∧ s' = s) := by
  cases ends with
  | unaligned => exact Or.inr ⟨⟨_, rfl⟩, rfl⟩
  | notMapped => exact Or.inr ⟨⟨_, rfl⟩, rfl⟩
  | ok _ mapped writes =>
      exact Or.inl ⟨rfl, _, mapped, fun _ _ alive lower' =>
        writes.write.leafAt_eq trees alive lower lower'⟩

/-- The leaf entries of the spaces in use carry the flags granted last. -/
def LeavesGranted (history : List Event) (s : Sys A) : Prop :=
  ∀ a v, Used s.toMachine a → LowerHalf v →
    Option.Rel (Spells s.nxeEnabled) (grantedFlags a (pageOf v) history)
      (leafAt s.mem (s.rootOf a) v)

variable {history : List Event}

omit [PageTableFrameAlloc A] [LawfulFrameAlloc A] in
/-- An event that grants nothing new and changes no leaf entry. -/
theorem LeavesGranted.same {event : Event} (leaves : LeavesGranted history s)
    (nxe : s'.nxeEnabled = s.nxeEnabled)
    (grant : ∀ {b n}, Used s'.toMachine b → event.grant b n (grantedFlags b n history) =
      grantedFlags b n history)
    (used : ∀ {b}, Used s'.toMachine b → Used s.toMachine b)
    (same : ∀ {b w}, Used s'.toMachine b → LowerHalf w →
      leafAt s'.mem (s'.rootOf b) w = leafAt s.mem (s.rootOf b) w) :
    LeavesGranted (event :: history) s' := by
  intro b w inUse lower
  rw [grantedFlags_cons, grant inUse, same inUse lower, nxe]
  exact leaves b w (used inUse) lower

omit [PageTableFrameAlloc A] [LawfulFrameAlloc A] in
/-- An event that changes the flags and the leaf entry of one page. -/
theorem LeavesGranted.update {event : Event} {new : Option Word} {flags : Option MapFlags}
    (leaves : LeavesGranted history s) (nxe : s'.nxeEnabled = s.nxeEnabled)
    (slots : s'.asSlots = s.asSlots)
    (grant : ∀ {b n old}, event.grant b n old =
      if AddressSpace.slot a = .slot b ∧ pageOf v = n then flags else old)
    (update : LeafUpdate (Used s.toMachine) a v new s s')
    (spells : Option.Rel (Spells s.nxeEnabled) flags new) :
    LeavesGranted (event :: history) s' := by
  intro b w inUse lower
  rw [used_congr slots] at inUse
  rw [grantedFlags_cons, grant, update b w inUse lower, nxe]
  by_cases here : b = a ∧ pageOf w = pageOf v
  · rw [if_pos ⟨by rw [here.1], here.2.symm⟩, if_pos here]
    exact spells
  · rw [if_neg, if_neg here]
    · exact leaves b w inUse lower
    · rintro ⟨same, page⟩
      exact here ⟨(AddressSpace.slot.inj same).symm, page.symm⟩

theorem MapEnds.leavesGranted {p : PhysAddr} {flags : MapFlags}
    (ends : MapEnds (Used s.toMachine) a v p flags s (r, s'))
    (trees : TreesInv (Used s.toMachine) s) (leaves : LeavesGranted history s)
    (lower : LowerHalf v) :
    LeavesGranted (⟨.map (.slot a) v p flags, r.map fun _ => .slot a⟩ :: history) s' := by
  have step := ends.lowerStep trees
  rcases ends.leafUpdate lower with ⟨rfl, update⟩ | ⟨⟨e, rfl⟩, same⟩
  · exact leaves.update step.nxe step.slots rfl update (.some ⟨p, rfl⟩)
  · have used' : Used s'.toMachine = Used s.toMachine := used_congr step.slots
    exact leaves.same step.nxe (fun _ => Event.grant_error _ _ _ _ _) (used' ▸ id)
      fun inUse lower' => same (used' ▸ inUse) lower'

omit [PageTableFrameAlloc A] [LawfulFrameAlloc A] in
/-- `unmap_4k` and `protect_4k`, by what they grant and what they write. -/
theorem ReplaceEnds.leavesGranted {update : Bool → Word → Word} {call : Call}
    {flags : Option MapFlags} (ends : ReplaceEnds (Used s.toMachine) a v update s (r, s'))
    (trees : Trees (Used s.toMachine) s.toMachine) (leaves : LeavesGranted history s)
    (lower : LowerHalf v)
    (grant : ∀ {b n old}, Event.grant b n old ⟨call, .ok (.slot a)⟩ =
      if AddressSpace.slot a = .slot b ∧ pageOf v = n then flags else old)
    (spells : ∀ e, Option.Rel (Spells s.nxeEnabled) flags
      ((some (update s.nxeEnabled e)).filter present)) :
    LeavesGranted (⟨call, r.map fun _ => .slot a⟩ :: history) s' := by
  have rest : s'.nxeEnabled = s.nxeEnabled ∧ s'.asSlots = s.asSlots := by
    cases ends with
    | unaligned | notMapped => exact ⟨rfl, rfl⟩
    | ok _ _ writes => constructor <;> rw [writes.rest]
  rcases ends.leafUpdate trees lower with ⟨rfl, e, -, written⟩ | ⟨⟨e, rfl⟩, rfl⟩
  · exact leaves.update rest.1 rest.2 grant written (spells e)
  · exact leaves.same rfl (fun _ => Event.grant_error _ _ _ _ _) id fun _ _ => rfl

omit [PageTableFrameAlloc A] [LawfulFrameAlloc A] in
theorem Keeps.leafAt_eq {k k' : Machine} {b : Fin maxAddressSpaces} {w : VirtAddr}
    (keeps : Keeps live k k') (alive : live b) (lower : LowerHalf w) :
    leafAt k'.mem (k'.rootOf b) w = leafAt k.mem (k.rootOf b) w := by
  rw [leafAt, keeps.leafEntry_eq alive lower, leafAt]

/-- A new space starts without any page, whoever had its slot before. -/
theorem NewEnds.leavesGranted {cpu : Cpu} {result : Except MapError AddressSpace}
    (ends : NewEnds (Used s.toMachine) s (result, s')) (leaves : LeavesGranted history s) :
    LeavesGranted (⟨.new cpu, result⟩ :: history) s' := by
  cases ends with
  | invalidArgs adopts =>
      have used : Used s'.toMachine = Used s.toMachine := used_congr adopts.asSlots
      refine leaves.same adopts.nxeEnabled (fun _ => rfl) (used ▸ id) fun _ _ => ?_
      rw [Machine.rootOf, Machine.rootOf, adopts.mem, adopts.asSlots]
  | outOfMemory inv keeps fresh heldMono slots nxe handle =>
      have used : Used s'.toMachine = Used s.toMachine := used_congr slots
      exact leaves.same nxe (fun _ => rfl) (used ▸ id)
        fun inUse lower => keeps.leafAt_eq (used ▸ inUse) lower
  | @ok _ i pml4 free inv keeps fresh heldMono empty slots nxe handle =>
      intro b w inUse lower
      by_cases new : i = b
      · rw [grantedFlags_cons, Event.grant, if_pos (by rw [new]), ← new, Machine.rootOf, slots,
          Function.update_self, show (newSlot i pml4).space.pml4Phys = pml4 from rfl,
          leafAt_empty empty lower]
        exact .none
      · have old : Used s.toMachine b := by
          rwa [Used, slots, Function.update_of_ne (Ne.symm new)] at inUse
        rw [grantedFlags_cons, Event.grant, if_neg (fun same => new (AddressSpace.slot.inj same)),
          keeps.leafAt_eq old lower, nxe]
        exact leaves b w old lower

theorem LeavesGranted.destroy (leaves : LeavesGranted history s)
    (destroys : Destroys (Used s.toMachine) a s s') (result : Except MapError AddressSpace) :
    LeavesGranted (⟨.destroy (.slot a), result⟩ :: history) s' := by
  have old : ∀ {b}, Used s'.toMachine b → Used s.toMachine b ∧ b ≠ a := by
    intro b inUse
    rwa [destroys.used] at inUse
  exact leaves.same (by rw [destroys.machine]) (fun _ => rfl) (fun inUse => (old inUse).1)
    fun inUse lower => destroys.keeps.leafAt_eq (old inUse) lower

/-- One call on the lower half of a created space, whatever its outcome. -/
theorem lowerCall_leavesGranted {call : Call} {result : Except MapError AddressSpace}
    (inv : RunInv s) (leaves : LeavesGranted history s) (may : LowerCall s.toMachine call)
    (done : call.exec s = (result, s')) : LeavesGranted (⟨call, result⟩ :: history) s' := by
  cases lowerCall_ends inv may done with
  | new ends => exact ends.leavesGranted leaves
  | destroy _ destroys => exact leaves.destroy destroys _
  | map _ lower ends => exact ends.leavesGranted inv.trees leaves lower
  | unmap _ lower ends =>
      apply ends.leavesGranted inv.trees.toTrees leaves lower rfl
      intro e
      rw [Option.filter_some, present_zero]
      exact .none
  | @protect _ _ flags _ _ _ lower ends =>
      apply ends.leavesGranted inv.trees.toTrees leaves lower rfl
      intro e
      have kept : protectedEntry flags s.nxeEnabled e = leafWord s.nxeEnabled e flags := rfl
      rw [kept, Option.filter_some, present_leafWord]
      exact .some ⟨e, rfl⟩

theorem leavesGranted_of_run {start : Sys A} (initial : NoSpaces start)
    (run : Runs LowerCall start history s) :
    RunInv s ∧ s.nxeEnabled = start.nxeEnabled ∧ LeavesGranted history s := by
  induction run with
  | start => exact ⟨initial.runInv, rfl, fun a _ used => absurd used (initial.unused a)⟩
  | step _ may done inductionHypothesis =>
      obtain ⟨inv, nxe, leaves⟩ := inductionHypothesis
      have ends := lowerCall_step inv may done
      exact ⟨ends.inv, ends.nxe.trans nxe, lowerCall_leavesGranted inv leaves may done⟩

end

/-! ### The walk of the processor -/

/-- All present entries met on the path from `t` are good. -/
def pathAll (good : Word → Bool) (m : Mem) : PhysAddr → List (Fin entryCount) → Bool
  | _, [] => true
  | t, i :: path =>
      let e := readEntry m t i
      !present e || (good e && pathAll good m (e &&& addrMask) path)

/-- The entry grants user access. -/
def userEntry (e : Word) : Bool := e &&& pteU != 0

/-- The processor's walk outside large pages: it ends at the leaf entry of the
backend, and the upper entries can only take rights away. -/
theorem hwWalk_of_small {m : Mem} {root : PhysAddr} {v : VirtAddr}
    (small : pathAll (fun e => !isLarge e) m root (tablePath v) = true) :
    hwWalk m root v = (leafAt m root v).map fun e =>
      { phys := (e &&& addrMask) ||| (v &&& 0xfff)
        user := pathAll userEntry m root (tablePath v) && userEntry e
        writable := pathAll (fun e => e &&& pteW != 0) m root (tablePath v) &&
          (e &&& pteW != 0)
        executable := pathAll (fun e => e &&& pteNx == 0) m root (tablePath v) &&
          (e &&& pteNx == 0) } := by
  simp only [hwWalk, leafAt, leafEntry, walkToPt, pathAll, tablePath, userEntry] at small ⊢
  generalize readEntry m root (pml4Index v) = e1 at *
  generalize readEntry m (e1 &&& addrMask) (pdptIndex v) = e2 at *
  generalize readEntry m (e2 &&& addrMask) (pdIndex v) = e3 at *
  cases first : present e1 with
  | false => simp
  | true =>
      cases second : present e2 with
      | false => simp
      | true =>
          simp only [first, second, Bool.not_true, Bool.false_or, Bool.and_true,
            Bool.and_eq_true, Bool.not_eq_true'] at small
          obtain ⟨-, small2, small3⟩ := small
          cases third : present e3 with
          | false => simp [small2]
          | true =>
              have small3 : isLarge e3 = false := by simpa [third] using small3
              cases fourth : present (readEntry m (e3 &&& addrMask) (ptIndex v)) with
              | false => simp [small2, small3, fourth]
              | true => simp [small2, small3, fourth, HwMapping.ofEntries, Bool.and_assoc]

section

variable {live : Fin maxAddressSpaces → Prop} {a : Fin maxAddressSpaces}
variable {k : Machine} {v : VirtAddr}

/-- The entries above the leaves of a live space are those `ensure_table` wrote. -/
theorem Trees.pathAll {good : Word → Bool} (trees : Trees live k)
    (isGood : ∀ e, IsTableEntry e → good e = true) {above rest : List (Fin entryCount)}
    {t : PhysAddr} (table : HasTable live k a above t) (lower : LowerPath 3 (above ++ rest)) :
    RincOs.pathAll good k.mem t rest = true := by
  induction rest generalizing above t with
  | nil => rfl
  | cons i rest inductionHypothesis =>
      obtain ⟨admitted, further⟩ := lower.next
      rw [RincOs.pathAll]
      cases isPresent : present (readEntry k.mem t i) with
      | false => rfl
      | true =>
          have child := table.child admitted (nextTable_eq_some.mpr ⟨isPresent, rfl⟩)
          simp [isGood _ (trees.entries table admitted isPresent),
            inductionHypothesis child further]

/-- In the lower half of a live space only user access depends on the upper
levels. -/
theorem hwWalk_lower (trees : Trees live k) (alive : live a) (lower : LowerHalf v) :
    hwWalk k.mem (k.rootOf a) v = (leafAt k.mem (k.rootOf a) v).map fun e =>
      { phys := (e &&& addrMask) ||| (v &&& 0xfff)
        user := pathAll userEntry k.mem (k.rootOf a) (tablePath v) && userEntry e
        writable := e &&& pteW != 0
        executable := e &&& pteNx == 0 } := by
  have root : HasTable live k a [] (k.rootOf a) := .root alive
  have all : ∀ good : Word → Bool, (∀ e, IsTableEntry e → good e = true) →
      pathAll good k.mem (k.rootOf a) (tablePath v) = true :=
    fun good isGood => trees.pathAll isGood root lower.tablePath
  have small := all (fun e => !isLarge e) fun e entry => by simp [isLarge, entry.small]
  have writable := all (fun e => e &&& pteW != 0) fun e entry =>
    bne_iff_ne.mpr entry.writable
  have executable := all (fun e => e &&& pteNx == 0) fun e entry =>
    beq_iff_eq.mpr entry.executable
  rw [hwWalk_of_small small, writable, executable]
  simp only [Bool.true_and]

end

theorem userEntry_leafWord (nxe : Bool) (p : PhysAddr) (flags : MapFlags) :
    userEntry (leafWord nxe p flags) = flags.contains .user := by
  rw [userEntry, leafWord_and_bit (by decide), (flagsToPte_bits nxe flags).2.2.2.1]
  cases flags.contains .user <;> decide

theorem writable_leafWord (nxe : Bool) (p : PhysAddr) (flags : MapFlags) :
    (leafWord nxe p flags &&& pteW != 0) = flags.contains .write := by
  rw [leafWord_and_bit (by decide), (flagsToPte_bits nxe flags).2.2.1]
  cases flags.contains .write <;> decide

theorem executable_leafWord (nxe : Bool) (p : PhysAddr) (flags : MapFlags) :
    (leafWord nxe p flags &&& pteNx == 0) = (flags.contains .exec || !nxe) := by
  rw [leafWord_and_bit (by decide), (flagsToPte_bits nxe flags).2.2.2.2]
  cases flags.contains .exec <;> cases nxe <;> decide

section

variable [PageTableFrameAlloc A] [LawfulFrameAlloc A]
variable {a : Fin maxAddressSpaces} {s : Sys A} {v : VirtAddr} {history : List Event}

/-- A page nothing is granted for is not mapped. -/
theorem LeavesGranted.ungranted (leaves : LeavesGranted history s) (inv : RunInv s)
    (used : Used s.toMachine a) (lower : LowerHalf v)
    (nothing : grantedFlags a (pageOf v) history = none) :
    hwWalk s.mem (s.asX86 (.slot a)).pml4Phys v = none := by
  have walked := hwWalk_lower inv.trees.toTrees used lower
  have leaf := leaves a v used lower
  rw [nothing] at leaf
  generalize leafAt s.mem (s.rootOf a) v = entry at leaf walked
  cases leaf with
  | none => exact walked

/-- A page with granted flags is mapped, and the processor gives these rights,
except that user access also needs the upper levels. -/
theorem LeavesGranted.granted (leaves : LeavesGranted history s) (inv : RunInv s)
    (used : Used s.toMachine a) (lower : LowerHalf v) {flags : MapFlags}
    (last : grantedFlags a (pageOf v) history = some flags) :
    ∃ p, translate s.toMachine (.slot a) v = .ok p ∧
      hwWalk s.mem (s.asX86 (.slot a)).pml4Phys v = some
        { phys := p
          user := pathAll userEntry s.mem (s.asX86 (.slot a)).pml4Phys (tablePath v) &&
            flags.contains .user
          writable := flags.contains .write
          executable := flags.contains .exec || !s.nxeEnabled } := by
  have walked := hwWalk_lower inv.trees.toTrees used lower
  have reads := translate_leafAt s.toMachine (.slot a) lower.canonical
  have leaf := leaves a v used lower
  rw [last] at leaf
  have root : (s.asX86 (.slot a)).pml4Phys = s.rootOf a := rfl
  rw [root] at reads
  generalize leafAt s.mem (s.rootOf a) v = entry at leaf walked reads
  cases leaf with
  | some spells =>
      obtain ⟨p, rfl⟩ := spells
      simp only [Option.map_some, userEntry_leafWord, writable_leafWord,
        executable_leafWord] at walked
      exact ⟨_, reads, walked⟩

end

/-! ### No right beyond the flags -/

/-- The rights do not go beyond the flags. -/
def HwMapping.Within (mapping : HwMapping) (flags : MapFlags) : Prop :=
  (mapping.user = true → flags.contains .user = true) ∧
    (mapping.writable = true → flags.contains .write = true) ∧
    (mapping.executable = true → flags.contains .exec = true)

/-- In the lower half of every space in use the processor grants at most what the
last successful call on the page asked for, and nothing on unmapped pages. -/
structure RightsBounded (history : List Event) (k : Machine) : Prop where
  bounded : ∀ a v mapping, Used k a → LowerHalf v →
    hwWalk k.mem (k.asX86 (.slot a)).pml4Phys v = some mapping →
      (∃ p, translate k (.slot a) v = .ok p) ∧
        ∃ flags, grantedFlags a (pageOf v) history = some flags ∧ mapping.Within flags
  unmapped : ∀ a v, Used k a → LowerHalf v → grantedFlags a (pageOf v) history = none →
    hwWalk k.mem (k.asX86 (.slot a)).pml4Phys v = none

/-- With NX enabled, rights stay within the flags in every run. -/
theorem rights_bounded [PageTableFrameAlloc A] [LawfulFrameAlloc A] {start s : Sys A}
    {history : List Event} (initial : NoSpaces start) (nx : start.nxeEnabled = true)
    (run : Runs LowerCall start history s) : RightsBounded history s.toMachine := by
  obtain ⟨inv, nxe, leaves⟩ := leavesGranted_of_run initial run
  constructor
  · intro a v mapping used lower walked
    cases last : grantedFlags a (pageOf v) history with
    | none =>
        rw [leaves.ungranted inv used lower last] at walked
        cases walked
    | some flags =>
        obtain ⟨p, reads, rights⟩ := leaves.granted inv used lower last
        rw [rights] at walked
        obtain rfl := Option.some.inj walked
        refine ⟨⟨p, reads⟩, flags, rfl, ?_⟩
        simp [HwMapping.Within, nxe, nx]
  · intro a v used lower absent
    exact leaves.ungranted inv used lower absent

/-- The adopted kernel with NX enabled. -/
def nxSys : Sys (Recorded BumpAlloc) := { adoptedSys with nxeEnabled := true }

theorem noSpaces_nxSys : NoSpaces nxSys where
  valid := trivial
  unused _ used := nomatch used
  kernel _ known := nomatch known

/-- The same with one address space. -/
def nxSpace : Sys (Recorded BumpAlloc) := ((Call.new bootCpu).exec nxSys).2

theorem runs_nxSpace : Runs LowerCall nxSys [⟨.new bootCpu, .ok (.slot 0)⟩] nxSpace :=
  Runs.start.extend (.new bootCpu) trivial

/-- A user page of the new space is bounded by its flags. -/
theorem rights_bounded_nxSpace :
    RightsBounded
      [⟨.map (.slot 0) 0x400000 0x7000 .user, .ok (.slot 0)⟩, ⟨.new bootCpu, .ok (.slot 0)⟩]
      ((Call.map (.slot 0) 0x400000 0x7000 .user).exec nxSpace).2.toMachine :=
  rights_bounded noSpaces_nxSys rfl
    (runs_nxSpace.step ⟨0, rfl, by decide, by decide⟩ rfl)

/-- The page that a new space inherits in the upper half is writable, although
no call asked for it. -/
theorem inherited_page_writable :
    Runs LowerCall nxSys [⟨.new bootCpu, .ok (.slot 0)⟩] nxSpace ∧
      nxSpace.nxeEnabled = true ∧ Used nxSpace.toMachine 0 ∧
      isCanonical 0xffff800000000000 = true ∧
      grantedFlags 0 (pageOf 0xffff800000000000) [⟨.new bootCpu, .ok (.slot 0)⟩] = none ∧
      (hwWalk nxSpace.mem (nxSpace.asX86 (.slot 0)).pml4Phys 0xffff800000000000).map
        HwMapping.writable = some true :=
  ⟨runs_nxSpace, rfl, by decide, by decide, rfl, by decide +kernel⟩

end RincOs
