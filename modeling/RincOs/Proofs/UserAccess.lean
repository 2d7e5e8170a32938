/-
Module: RincOs.Proofs.UserAccess
Purpose: Whether the rights that were asked for are really granted.  The upper
  entries on the way to a page get their user bit from the call that created
  them, so user access needs that bit in the tables a call finds in place.
Trusted boundary: none
Main exports:
  RightsGranted, UserPathOpen, UserReaches, rightsGranted_step, GrantedThroughout
-/
import RincOs.Proofs.Rights

namespace RincOs

open RadixForest LawfulFrameAlloc

variable {A : Type}

/-! ### Upper entries over one call -/

section

variable {live : Fin maxAddressSpaces → Prop} {a b : Fin maxAddressSpaces}
variable {k k' : Machine} {good : Word → Bool} {above rest : List (Fin entryCount)}
variable {t : PhysAddr} {m : Mem}

/-- Where the table slots read the same, so do the entries on every path. -/
theorem pathAll_congr
    (same : ∀ {path t i}, HasTable live k b path t → LowerPath 3 (path ++ [i]) →
      readEntry m t i = readEntry k.mem t i)
    (table : HasTable live k b above t) (lower : LowerPath 3 (above ++ rest)) :
    pathAll good m t rest = pathAll good k.mem t rest := by
  induction rest generalizing above t with
  | nil => rfl
  | cons i rest inductionHypothesis =>
      obtain ⟨admitted, further⟩ := lower.next
      rw [pathAll, pathAll, same table admitted]
      cases isPresent : present (readEntry k.mem t i) with
      | false => rfl
      | true =>
          have child := table.child admitted (nextTable_eq_some.mpr ⟨isPresent, rfl⟩)
          simp only [inductionHypothesis child further]

theorem Keeps.pathAll_eq (keeps : Keeps live k k') (table : HasTable live k b above t)
    (lower : LowerPath 3 (above ++ rest)) :
    pathAll good k'.mem t rest = pathAll good k.mem t rest :=
  pathAll_congr (fun known _ => keeps.words known _) table lower

/-- A leaf write touches no upper entry. -/
theorem LeafWrite.pathAll_eq {path : List (Fin entryCount)} {i : Fin entryCount} {e : Word}
    (write : LeafWrite live a path i e k k') (trees : Trees live k)
    (table : HasTable live k b above t) (lower : LowerPath 3 (above ++ rest)) :
    pathAll good k'.mem t rest = pathAll good k.mem t rest := by
  refine pathAll_congr (fun known admitted => ?_) table lower
  rw [write.read trees known, if_neg]
  rintro ⟨-, rfl, -⟩
  have short := admitted.1
  have deep := write.deep
  simp only [List.length_append, List.length_singleton] at short
  omega

variable [PageTableFrameAlloc A] [LawfulFrameAlloc A]
variable {user : Bool} {s s' : Sys A}

/-- Creating tables leaves a path that is complete as it is. -/
theorem Extends.pathAll_complete (ext : Extends live a user s s')
    (table : HasTable live s.toMachine b above t) (lower : LowerPath 3 (above ++ rest))
    {pt : PhysAddr} (complete : walk (nextTable s.mem) t rest = some pt) :
    pathAll good s'.mem t rest = pathAll good s.mem t rest := by
  induction rest generalizing above t with
  | nil => rfl
  | cons i rest inductionHypothesis =>
      obtain ⟨admitted, further⟩ := lower.next
      rw [walk_cons, Option.bind_eq_some_iff] at complete
      obtain ⟨child, slot, complete⟩ := complete
      have below := table.child admitted slot
      obtain ⟨isPresent, rfl⟩ := nextTable_eq_some.mp slot
      rcases ext.words table i with same | ⟨-, -, absent, -⟩
      · rw [pathAll, pathAll, same]
        simp only [inductionHypothesis below further complete]
      · rw [absent] at isPresent
        cases isPresent

/-- The child of a slot that was empty before is new. -/
theorem Extends.child_fresh (ext : Extends live a user s s') {i : Fin entryCount}
    {child : PhysAddr} (table : HasTable live s'.toMachine b above t)
    (empty : HasTable live s.toMachine b above t → nextTable s.mem t i = none) :
    ¬ HasTable live s.toMachine b (above ++ [i]) child := by
  intro old
  obtain ⟨parent, known, slot⟩ := old.parent
  obtain rfl := (ext.positions known).unique table
  rw [empty known] at slot
  cases slot

/-- A path below a new table has only new entries. -/
theorem Extends.pathAll_fresh (ext : Extends live a user s s')
    (isGood : ∀ g, good (tableEntry g user) = true)
    (table : HasTable live s'.toMachine b above t)
    (fresh : ¬ HasTable live s.toMachine b above t) (lower : LowerPath 3 (above ++ rest)) :
    pathAll good s'.mem t rest = true := by
  induction rest generalizing above t with
  | nil => rfl
  | cons i rest inductionHypothesis =>
      obtain ⟨admitted, further⟩ := lower.next
      obtain ⟨-, -, -, zero⟩ := (ext.fresh table).resolve_left fresh
      rw [pathAll]
      rcases zero i with zero | ⟨-, -, g, entry⟩
      · rw [zero, present_zero]
        rfl
      · have isPresent : present (readEntry s'.mem t i) = true := by
          rw [entry, present_tableEntry]
        have child := table.child admitted (nextTable_eq_some.mpr ⟨isPresent, rfl⟩)
        have good := isGood g
        rw [← entry] at good
        simp [good, inductionHypothesis child
          (ext.child_fresh table fun old => absurd old fresh) further]

/-- Creating tables adds only good entries to a path. -/
theorem Extends.pathAll_eq (ext : Extends live a user s s')
    (isGood : ∀ g, good (tableEntry g user) = true)
    (table : HasTable live s.toMachine b above t) (lower : LowerPath 3 (above ++ rest)) :
    pathAll good s'.mem t rest = pathAll good s.mem t rest := by
  induction rest generalizing above t with
  | nil => rfl
  | cons i rest inductionHypothesis =>
      obtain ⟨admitted, further⟩ := lower.next
      rw [pathAll, pathAll]
      rcases ext.words table i with same | ⟨-, -, absent, g, entry⟩
      · rw [same]
        cases isPresent : present (readEntry s.mem t i) with
        | false => rfl
        | true =>
            have child := table.child admitted (nextTable_eq_some.mpr ⟨isPresent, rfl⟩)
            simp only [inductionHypothesis child further]
      · have isPresent : present (readEntry s'.mem t i) = true := by
          rw [entry, present_tableEntry]
        have child := (ext.positions table).child admitted
          (nextTable_eq_some.mpr ⟨isPresent, rfl⟩)
        have good := isGood g
        rw [← entry] at good
        simp [absent, good, ext.pathAll_fresh isGood child (ext.child_fresh
          (ext.positions table) fun _ => nextTable_eq_none.mpr absent) further]

end

/-! ### User access to a page -/

/-- All present upper entries on the way to `v` grant user access. -/
def userPath (m : Mem) (root : PhysAddr) (v : VirtAddr) : Bool :=
  pathAll userEntry m root (tablePath v)

theorem userPath_congr_page {m : Mem} {root : PhysAddr} {v w : VirtAddr} (one : LowerHalf v)
    (two : LowerHalf w) (page : pageOf v = pageOf w) : userPath m root v = userPath m root w := by
  rw [userPath, userPath, ((leafSlot_eq_iff one two).mpr page).1]

section

variable {live : Fin maxAddressSpaces → Prop} {a b : Fin maxAddressSpaces}
variable {k k' : Machine} {v w : VirtAddr}

theorem Keeps.userPath_eq (keeps : Keeps live k k') (alive : live b) (lower : LowerHalf w) :
    userPath k'.mem (k'.rootOf b) w = userPath k.mem (k.rootOf b) w := by
  have root : HasTable live k b [] (k.rootOf b) := .root alive
  rw [userPath, Machine.rootOf, keeps.roots alive]
  exact keeps.pathAll_eq root lower.tablePath

theorem LeafWrite.userPath_eq {path : List (Fin entryCount)} {i : Fin entryCount} {e : Word}
    (write : LeafWrite live a path i e k k') (trees : Trees live k) (alive : live b)
    (lower : LowerHalf w) :
    userPath k'.mem (k'.rootOf b) w = userPath k.mem (k.rootOf b) w := by
  have root : HasTable live k b [] (k.rootOf b) := .root alive
  rw [userPath, Machine.rootOf, write.asSlots]
  exact write.pathAll_eq trees root lower.tablePath

variable [PageTableFrameAlloc A] [LawfulFrameAlloc A]
variable {user : Bool} {s s' : Sys A}

theorem Extends.userPath_complete (ext : Extends live a user s s') (alive : live b)
    (lower : LowerHalf w) (complete : walkToPt s.mem (s.rootOf b) w ≠ none) :
    userPath s'.mem (s'.rootOf b) w = userPath s.mem (s.rootOf b) w := by
  obtain ⟨pt, complete⟩ := Option.ne_none_iff_exists'.mp complete
  rw [walkToPt_eq_walk] at complete
  have root : HasTable live s.toMachine b [] (s.rootOf b) := .root alive
  rw [userPath, ext.rootOf]
  exact ext.pathAll_complete root lower.tablePath complete

theorem Extends.userPath_eq (ext : Extends live a true s s') (alive : live b)
    (lower : LowerHalf w) :
    userPath s'.mem (s'.rootOf b) w = userPath s.mem (s.rootOf b) w := by
  have root : HasTable live s.toMachine b [] (s.rootOf b) := .root alive
  rw [userPath, ext.rootOf]
  refine ext.pathAll_eq (fun g => ?_) root lower.tablePath
  exact bne_iff_ne.mpr ((tableEntry_user g true).mpr rfl)

/-- From `s` to `s'` a path that was complete keeps its user bits. -/
def PathsKept (live : Fin maxAddressSpaces → Prop) (s s' : Sys A) : Prop :=
  ∀ b w, live b → LowerHalf w → walkToPt s.mem (s.rootOf b) w ≠ none →
    userPath s'.mem (s'.rootOf b) w = userPath s.mem (s.rootOf b) w

theorem MapEnds.pathsKept {p : PhysAddr} {flags : MapFlags}
    {outcome : Except MapError PUnit × Sys A} (ends : MapEnds live a v p flags s outcome) :
    PathsKept live s outcome.2 := by
  intro b w alive lower complete
  cases ends with
  | unaligned => rfl
  | outOfMemory _ ext | alreadyMapped _ ext => exact ext.userPath_complete alive lower complete
  | ok _ ext _ writes =>
      rw [writes.write.userPath_eq ext.inv.toTrees alive lower]
      exact ext.userPath_complete alive lower complete

omit [PageTableFrameAlloc A] [LawfulFrameAlloc A] in
theorem ReplaceEnds.userPath_eq {update : Bool → Word → Word}
    {outcome : Except MapError PUnit × Sys A} (ends : ReplaceEnds live a v update s outcome)
    (trees : Trees live s.toMachine) (alive : live b) (lower : LowerHalf w) :
    userPath outcome.2.mem (outcome.2.rootOf b) w = userPath s.mem (s.rootOf b) w := by
  cases ends with
  | unaligned | notMapped => rfl
  | ok _ _ writes => exact writes.write.userPath_eq trees alive lower

omit [PageTableFrameAlloc A] [LawfulFrameAlloc A] in
theorem ReplaceEnds.pathsKept {update : Bool → Word → Word}
    {outcome : Except MapError PUnit × Sys A} (ends : ReplaceEnds live a v update s outcome)
    (trees : Trees live s.toMachine) : PathsKept live s outcome.2 :=
  fun _ _ alive lower _ => ends.userPath_eq trees alive lower

/-- A successful `map_4k` of a user page: what it adds to the path is open. -/
theorem MapEnds.userPath_eq {p : PhysAddr} {flags : MapFlags} {s' : Sys A}
    (ends : MapEnds live a v p flags s (.ok ⟨⟩, s')) (asked : flags.contains .user = true)
    (alive : live a) (lower : LowerHalf v) :
    userPath s'.mem (s'.rootOf a) v = userPath s.mem (s.rootOf a) v := by
  cases ends with
  | ok _ ext _ writes =>
      rw [asked] at ext
      rw [writes.write.userPath_eq ext.inv.toTrees alive lower, ext.userPath_eq alive lower]

end

/-! ### The rights that were asked for -/

/-- Every page with granted flags gives the rights they ask for. -/
def RightsGranted (history : List Event) (k : Machine) : Prop :=
  ∀ a v flags, Used k a → LowerHalf v → grantedFlags a (pageOf v) history = some flags →
    ∃ mapping, hwWalk k.mem (k.asX86 (.slot a)).pml4Phys v = some mapping ∧
      (flags.contains .user = true → mapping.user = true) ∧
      (flags.contains .write = true → mapping.writable = true) ∧
      (flags.contains .exec = true → mapping.executable = true)

/-- If the call asks for user access, the upper entries it finds in place have
the user bit. -/
def UserPathOpen (k : Machine) : Call → Prop
  | .map aspace v _ flags | .protect aspace v flags =>
      flags.contains .user = true → userPath k.mem (k.asX86 aspace).pml4Phys v = true
  | _ => True

/-- The part of `RightsGranted` that depends on the upper levels. -/
def UserReaches (history : List Event) (k : Machine) : Prop :=
  ∀ a v flags, Used k a → LowerHalf v → grantedFlags a (pageOf v) history = some flags →
    flags.contains .user = true → userPath k.mem (k.rootOf a) v = true

section

variable [PageTableFrameAlloc A] [LawfulFrameAlloc A]
variable {a : Fin maxAddressSpaces} {s s' : Sys A} {v : VirtAddr} {history : List Event}

theorem LeavesGranted.rightsGranted_iff (leaves : LeavesGranted history s) (inv : RunInv s) :
    RightsGranted history s.toMachine ↔ UserReaches history s.toMachine := by
  constructor
  · intro rights a v flags used lower last asked
    obtain ⟨mapping, walked, user, -⟩ := rights a v flags used lower last
    obtain ⟨p, -, walked'⟩ := leaves.granted inv used lower last
    obtain rfl := Option.some.inj (walked'.symm.trans walked)
    exact (Bool.and_eq_true_iff.mp (user asked)).1
  · intro reaches a v flags used lower last
    obtain ⟨p, -, walked⟩ := leaves.granted inv used lower last
    refine ⟨_, walked, fun asked => ?_, id, fun asked => by simp [asked]⟩
    exact Bool.and_eq_true_iff.mpr ⟨reaches a v flags used lower last asked, asked⟩

omit [PageTableFrameAlloc A] [LawfulFrameAlloc A] in
/-- A page with granted flags has all its tables. -/
theorem LeavesGranted.complete (leaves : LeavesGranted history s) {flags : MapFlags}
    (used : Used s.toMachine a) (lower : LowerHalf v)
    (last : grantedFlags a (pageOf v) history = some flags) :
    walkToPt s.mem (s.rootOf a) v ≠ none := by
  intro missing
  have leaf := leaves a v used lower
  rw [last, leafAt_eq_none_of_walk missing] at leaf
  cases leaf

omit [PageTableFrameAlloc A] [LawfulFrameAlloc A] in
/-- An event that asks for nothing new. -/
theorem UserReaches.same {event : Event} (reaches : UserReaches history s.toMachine)
    (leaves : LeavesGranted history s)
    (old : ∀ {b n flags}, Used s'.toMachine b →
      event.grant b n (grantedFlags b n history) = some flags →
        Used s.toMachine b ∧ grantedFlags b n history = some flags)
    (paths : PathsKept (fun b => Used s.toMachine b ∧ Used s'.toMachine b) s s') :
    UserReaches (event :: history) s'.toMachine := by
  intro b w flags used lower last asked
  obtain ⟨used₀, last₀⟩ := old used last
  rw [paths b w ⟨used₀, used⟩ lower (leaves.complete used₀ lower last₀)]
  exact reaches b w flags used₀ lower last₀ asked

omit [PageTableFrameAlloc A] [LawfulFrameAlloc A] in
/-- An event that asks for the given flags on one page. -/
theorem UserReaches.update_iff {event : Event} {flags : MapFlags}
    (reaches : UserReaches history s.toMachine) (leaves : LeavesGranted history s)
    (slots : s'.asSlots = s.asSlots) (used : Used s.toMachine a) (lower : LowerHalf v)
    (grant : ∀ {b n old}, event.grant b n old =
      if AddressSpace.slot a = .slot b ∧ pageOf v = n then some flags else old)
    (paths : PathsKept (Used s.toMachine) s s')
    (here : flags.contains .user = true →
      userPath s'.mem (s'.rootOf a) v = userPath s.mem (s.rootOf a) v) :
    UserReaches (event :: history) s'.toMachine ↔
      (flags.contains .user = true → userPath s.mem (s.rootOf a) v = true) := by
  constructor
  · intro after asked
    rw [← here asked]
    refine after a v flags ?_ lower ?_ asked
    · rwa [used_congr slots]
    · rw [grantedFlags_cons, grant, if_pos ⟨rfl, rfl⟩]
  · intro isOpen b w flags' used' lower' last asked
    rw [used_congr slots] at used'
    rw [grantedFlags_cons, grant] at last
    split at last
    · rename_i page
      obtain ⟨same, page⟩ := page
      obtain rfl := AddressSpace.slot.inj same
      obtain rfl := Option.some.inj last
      rw [userPath_congr_page lower' lower page.symm, here asked]
      exact isOpen asked
    · rw [paths b w used' lower' (leaves.complete used' lower' last)]
      exact reaches b w flags' used' lower' last asked

omit [PageTableFrameAlloc A] [LawfulFrameAlloc A] in
/-- A failed update. -/
theorem UserReaches.failed (reaches : UserReaches history s.toMachine)
    (leaves : LeavesGranted history s) (slots : s'.asSlots = s.asSlots)
    (paths : PathsKept (Used s.toMachine) s s') (call : Call) (e : MapError) :
    UserReaches (⟨call, .error e⟩ :: history) s'.toMachine := by
  refine reaches.same leaves (fun {b n flags} inUse last => ?_) fun b w both =>
    paths b w both.1
  rw [used_congr slots] at inUse
  exact ⟨inUse, (Event.grant_error b n _ call e).symm.trans last⟩

theorem MapEnds.reaches_iff {p : PhysAddr} {flags : MapFlags}
    {outcome : Except MapError PUnit}
    (ends : MapEnds (Used s.toMachine) a v p flags s (outcome, s'))
    (trees : TreesInv (Used s.toMachine) s) (leaves : LeavesGranted history s)
    (reaches : UserReaches history s.toMachine) (used : Used s.toMachine a)
    (lower : LowerHalf v) :
    UserReaches (⟨.map (.slot a) v p flags, outcome.map fun _ => .slot a⟩ :: history)
        s'.toMachine ↔
      ((outcome.map fun _ => AddressSpace.slot a).isOk = true →
        UserPathOpen s.toMachine (.map (.slot a) v p flags)) := by
  have step := ends.lowerStep trees
  have paths := ends.pathsKept
  cases outcome with
  | error e => exact iff_of_true (reaches.failed leaves step.slots paths _ e) nofun
  | ok =>
      exact (reaches.update_iff leaves step.slots used lower rfl paths
        (ends.userPath_eq · used lower)).trans
        ⟨fun isOpen _ => isOpen, fun isOpen => isOpen rfl⟩

theorem ReplaceEnds.reaches_protect_iff {flags : MapFlags} {outcome : Except MapError PUnit}
    (ends : ReplaceEnds (Used s.toMachine) a v (protectedEntry flags) s (outcome, s'))
    (trees : TreesInv (Used s.toMachine) s) (leaves : LeavesGranted history s)
    (reaches : UserReaches history s.toMachine) (used : Used s.toMachine a)
    (lower : LowerHalf v) :
    UserReaches (⟨.protect (.slot a) v flags, outcome.map fun _ => .slot a⟩ :: history)
        s'.toMachine ↔
      ((outcome.map fun _ => AddressSpace.slot a).isOk = true →
        UserPathOpen s.toMachine (.protect (.slot a) v flags)) := by
  have step := ends.lowerStep trees
  have paths := ends.pathsKept trees.toTrees
  cases outcome with
  | error e => exact iff_of_true (reaches.failed leaves step.slots paths _ e) nofun
  | ok =>
      exact (reaches.update_iff leaves step.slots used lower rfl paths
        fun _ => ends.userPath_eq trees.toTrees used lower).trans
        ⟨fun isOpen _ => isOpen, fun isOpen => isOpen rfl⟩

theorem ReplaceEnds.reaches_unmap {outcome : Except MapError PUnit}
    (ends : ReplaceEnds (Used s.toMachine) a v (fun _ _ => 0) s (outcome, s'))
    (trees : TreesInv (Used s.toMachine) s) (leaves : LeavesGranted history s)
    (reaches : UserReaches history s.toMachine) :
    UserReaches (⟨.unmap (.slot a) v, outcome.map fun _ => .slot a⟩ :: history)
      s'.toMachine := by
  have step := ends.lowerStep trees
  have paths := ends.pathsKept trees.toTrees
  cases outcome with
  | error e => exact reaches.failed leaves step.slots paths _ e
  | ok =>
      refine reaches.same leaves (fun {b n flags} inUse last => ?_) fun b w both =>
        paths b w both.1
      rw [Used, step.slots] at inUse
      change (if AddressSpace.slot a = .slot b ∧ pageOf v = n then none
        else grantedFlags b n history) = some flags at last
      split at last
      · cases last
      · exact ⟨inUse, last⟩

theorem NewEnds.reaches {cpu : Cpu} {result : Except MapError AddressSpace}
    (ends : NewEnds (Used s.toMachine) s (result, s')) (leaves : LeavesGranted history s)
    (reaches : UserReaches history s.toMachine) :
    UserReaches (⟨.new cpu, result⟩ :: history) s'.toMachine := by
  cases ends with
  | invalidArgs adopts =>
      have keeps : Keeps (Used s.toMachine) s.toMachine s'.toMachine := adopts.keeps
      exact reaches.failed leaves adopts.asSlots (fun b w alive lower _ =>
        keeps.userPath_eq alive lower) _ _
  | outOfMemory inv keeps fresh heldMono slots nxe handle =>
      exact reaches.failed leaves slots (fun b w alive lower _ =>
        keeps.userPath_eq alive lower) _ _
  | @ok _ i pml4 free inv keeps fresh heldMono empty slots nxe handle =>
      refine reaches.same leaves (fun {b n flags} inUse last => ?_) fun b w both lower _ =>
        keeps.userPath_eq both.1 lower
      change (if AddressSpace.slot i = .slot b then none else grantedFlags b n history) =
        some flags at last
      split at last
      · cases last
      · rename_i other
        rw [Used, slots, Function.update_of_ne (fun same => other (by rw [same]))] at inUse
        exact ⟨inUse, last⟩

theorem UserReaches.destroy (reaches : UserReaches history s.toMachine)
    (leaves : LeavesGranted history s) (destroys : Destroys (Used s.toMachine) a s s')
    (result : Except MapError AddressSpace) :
    UserReaches (⟨.destroy (.slot a), result⟩ :: history) s'.toMachine := by
  refine reaches.same leaves (fun {b n flags} inUse last => ?_) fun b w both lower _ => ?_
  · rw [destroys.used] at inUse
    exact ⟨inUse.1, last⟩
  · have other : Used s.toMachine b ∧ b ≠ a := by
      rw [← congrFun destroys.used b]
      exact both.2
    exact destroys.keeps.userPath_eq other lower

/-- Where all requested rights are granted, one more call keeps it so exactly if
it fails or finds the way to its page open. -/
theorem rightsGranted_step {call : Call} {result : Except MapError AddressSpace}
    (inv : RunInv s) (leaves : LeavesGranted history s)
    (rights : RightsGranted history s.toMachine) (may : LowerCall s.toMachine call)
    (done : call.exec s = (result, s')) :
    RightsGranted (⟨call, result⟩ :: history) s'.toMachine ↔
      (result.isOk = true → UserPathOpen s.toMachine call) := by
  have reaches := (leaves.rightsGranted_iff inv).mp rights
  have inv' := (lowerCall_step inv may done).inv
  rw [(lowerCall_leavesGranted inv leaves may done).rightsGranted_iff inv']
  cases lowerCall_ends inv may done with
  | new ends => exact iff_of_true (ends.reaches leaves reaches) fun _ => trivial
  | destroy _ destroys => exact iff_of_true (reaches.destroy leaves destroys _) fun _ => trivial
  | map used lower ends => exact ends.reaches_iff inv.trees leaves reaches used lower
  | unmap _ _ ends =>
      exact iff_of_true (ends.reaches_unmap inv.trees leaves reaches) fun _ => trivial
  | protect used lower ends =>
      exact ends.reaches_protect_iff inv.trees leaves reaches used lower

/-- In every state a run passes through all requested rights are granted. -/
def GrantedThroughout (start : Sys A) (history : List Event) : Prop :=
  ∀ past s, past <:+ history → Runs LowerCall start past s → RightsGranted past s.toMachine

/-- Every successful call of a run that asked for user access found the upper
entries on the way to its page with the user bit, where they existed. -/
def OpenThroughout (start : Sys A) (history : List Event) : Prop :=
  ∀ call result past s s', ⟨call, result⟩ :: past <:+ history → Runs LowerCall start past s →
    LowerCall s.toMachine call → call.exec s = (result, s') → result.isOk = true →
      UserPathOpen s.toMachine call

/-- A run grants all requested rights throughout exactly if its successful calls
found the way to their pages open. -/
theorem grantedThroughout_iff {start : Sys A} (initial : NoSpaces start)
    (history : List Event) :
    GrantedThroughout start history ↔ OpenThroughout start history := by
  constructor
  · intro granted call result past s s' inside run may done
    obtain ⟨inv, -, leaves⟩ := leavesGranted_of_run initial run
    have before := granted past s ((List.suffix_cons _ _).trans inside) run
    exact (rightsGranted_step inv leaves before may done).mp
      (granted _ s' inside (run.step may done))
  · intro isOpen past s inside run
    induction run with
    | start => exact fun a _ _ used => absurd used (initial.unused a)
    | @step past s s' call result run may done inductionHypothesis =>
        obtain ⟨inv, -, leaves⟩ := leavesGranted_of_run initial run
        have before := inductionHypothesis ((List.suffix_cons _ _).trans inside)
        exact (rightsGranted_step inv leaves before may done).mpr
          (isOpen call result past s s' inside run may done)

end

/-! ### Two pages in one page table -/

/-- A user page mapped into an empty space finds nothing in its way. -/
theorem grantedThroughout_nxSpace :
    GrantedThroughout nxSys
      [⟨.map (.slot 0) 0x400000 0x7000 .user, .ok (.slot 0)⟩,
        ⟨.new bootCpu, .ok (.slot 0)⟩] := by
  refine (grantedThroughout_iff noSpaces_nxSys _).mpr ?_
  intro call result past s s' inside run _ _ _
  rcases List.suffix_cons_iff.mp inside with last | inside
  · obtain ⟨⟨rfl, -⟩, rfl⟩ : (call = _ ∧ result = _) ∧ past = _ := by simpa using last
    obtain rfl := run.unique runs_nxSpace
    exact fun _ => by decide +kernel
  · rcases List.suffix_cons_iff.mp inside with first | none
    · obtain ⟨⟨rfl, -⟩, -⟩ : (call = _ ∧ result = _) ∧ past = _ := by simpa using first
      trivial
    · simp at none

/-- A supervisor page, mapped first. -/
def supervisorFirst : Sys (Recorded BumpAlloc) :=
  ((Call.map (.slot 0) 0x400000 0x7000 .read).exec nxSpace).2

/-- The user page mapped after it in the same page table is not accessible. -/
theorem user_page_behind_supervisor_table :
    let s := ((Call.map (.slot 0) 0x401000 0x8000 .user).exec supervisorFirst).2
    let history := [⟨.map (.slot 0) 0x401000 0x8000 .user, .ok (.slot 0)⟩,
      ⟨.map (.slot 0) 0x400000 0x7000 .read, .ok (.slot 0)⟩, ⟨.new bootCpu, .ok (.slot 0)⟩]
    Runs LowerCall nxSys history s ∧
      grantedFlags 0 (pageOf 0x401000) history = some .user ∧
      (hwWalk s.mem (s.asX86 (.slot 0)).pml4Phys 0x401000).map HwMapping.user = some false ∧
      ¬ GrantedThroughout nxSys history := by
  intro s history
  have first : Runs LowerCall nxSys history.tail supervisorFirst :=
    runs_nxSpace.step ⟨0, rfl, by decide, by decide⟩ rfl
  have run : Runs LowerCall nxSys history s := first.step ⟨0, rfl, by decide, by decide⟩ rfl
  have last : grantedFlags 0 (pageOf 0x401000) history = some .user := rfl
  have refused : (hwWalk s.mem (s.asX86 (.slot 0)).pml4Phys 0x401000).map HwMapping.user =
      some false := by decide +kernel
  refine ⟨run, last, refused, fun granted => ?_⟩
  obtain ⟨mapping, walked, user, -⟩ :=
    granted history s List.suffix_rfl run 0 0x401000 .user (by decide) (by decide) last
  rw [walked, Option.map_some, user (by decide)] at refused
  cases refused

end RincOs
