/-
Module: RincOs.Proofs.PageMapRefinement
Purpose: The lower half of one address space refines a partial map: every run of
  map, unmap, protect and translate calls is simulated step by step.
Trusted boundary: none
Main exports:
  Represents, perform, Simulated, addressSpace_refines_pageMap
-/
import RincOs.Spec.PageMap
import RincOs.Proofs.BumpAlloc
import RincOs.Proofs.SpaceLifecycle

namespace RincOs

open RadixForest LawfulFrameAlloc

variable {A : Type}

/-! ### The relation -/

/-- The leaf entry that stands for an item of the abstract map. -/
def leafOf (nxe : Bool) (item : PhysAddr × MapFlags) : Word :=
  leafWord nxe item.1 item.2

/-- The lower half below `root` holds exactly the items of `pages`. -/
structure Represents (pages : PageMap) (k : Machine) (root : PhysAddr) : Prop where
  leaves : ∀ {v}, LowerHalf v →
    leafAt k.mem root v = (pages (pageOf v)).map (leafOf k.nxeEnabled)
  frames : ∀ {n item}, pages n = some item → IsFrame item.1

namespace Represents

variable {pages : PageMap} {k : Machine} {root : PhysAddr} {v : VirtAddr}

theorem leafAt_eq_none (related : Represents pages k root) (lower : LowerHalf v) :
    leafAt k.mem root v = none ↔ pages (pageOf v) = none := by
  rw [related.leaves lower, Option.map_eq_none_iff]

/-- `translate` answers as the abstract map does. -/
theorem translate_eq (aspace : AddressSpace)
    (related : Represents pages k (k.asX86 aspace).pml4Phys) (lower : LowerHalf v) :
    translate k aspace v =
      match pages (pageOf v) with
      | none => .error .notMapped
      | some (p, _) => .ok (p ||| (v &&& 0xfff)) := by
  rw [translate_leafAt k aspace lower.canonical, related.leaves lower]
  cases found : pages (pageOf v) with
  | none => rfl
  | some item =>
      have frame : item.1 &&& addrMask = item.1 := related.frames found
      simp only [Option.map_some, leafOf, leafWord_and_addrMask, frame]

end Represents

section

variable [PageTableFrameAlloc A] [LawfulFrameAlloc A]
variable {live : Fin maxAddressSpaces → Prop} {a b : Fin maxAddressSpaces}
variable {s s' : Sys A} {pages : PageMap} {v : VirtAddr}

/-- Creating tables does not show in the abstract map. -/
theorem Extends.represents {user : Bool} (ext : Extends live a user s s') (alive : live b)
    (related : Represents pages s.toMachine (s.rootOf b)) :
    Represents pages s'.toMachine (s'.rootOf b) where
  leaves lower := by
    have nxe : s'.nxeEnabled = s.nxeEnabled := by rw [ext.rest]
    rw [ext.leafAt_eq alive lower, related.leaves lower, nxe]
  frames := related.frames

omit [PageTableFrameAlloc A] [LawfulFrameAlloc A] in
/-- Writing a leaf entry is an update of the abstract map at one page. -/
theorem WritesLeaf.represents {e : Word} (writes : WritesLeaf live a v e s s')
    (trees : Trees live s.toMachine) (alive : live a) (lower : LowerHalf v)
    (related : Represents pages s.toMachine (s.rootOf a))
    {item : Option (PhysAddr × MapFlags)}
    (spells : (some e).filter present = item.map (leafOf s.nxeEnabled))
    (frame : ∀ {i}, item = some i → IsFrame i.1) :
    Represents (Function.update pages (pageOf v) item) s'.toMachine (s'.rootOf a) where
  leaves {w} lower' := by
    have nxe : s'.nxeEnabled = s.nxeEnabled := by rw [writes.rest]
    rw [writes.write.leafAt_eq trees alive lower lower', nxe, Function.update_apply]
    by_cases page : pageOf w = pageOf v
    · rw [if_pos ⟨rfl, page⟩, if_pos page, spells]
    · rw [if_neg (fun both => page both.2), if_neg page, related.leaves lower']
  frames {n i} found := by
    rw [Function.update_apply] at found
    split at found
    · exact frame found
    · exact related.frames found

/-! ### One call -/

/-- The call ended because no frame was left. -/
def ranOut : Except MapError PUnit → Bool
  | .error .outOfMemory => true
  | _ => false

theorem MapEnds.represents {p : PhysAddr} {flags : MapFlags} {r : Except MapError PUnit}
    (ends : MapEnds live a v p flags s (r, s')) (alive : live a) (lower : LowerHalf v)
    (bounded : p.toNat < 2 ^ 52) (related : Represents pages s.toMachine (s.rootOf a)) :
    ∃ pages', pages.step (ranOut r) (.map v p flags) = (.updated r, pages') ∧
      Represents pages' s'.toMachine (s'.rootOf a) := by
  cases ends with
  | unaligned bad =>
      exact ⟨pages, by simp [PageMap.step, bad], related⟩
  | outOfMemory aligned ext absent =>
      have free := (related.leafAt_eq_none lower).mp absent
      exact ⟨pages, by simp [PageMap.step, aligned, free, ranOut],
        ext.represents alive related⟩
  | alreadyMapped aligned ext mapped =>
      obtain ⟨item, taken⟩ := Option.ne_none_iff_exists'.mp
        (mt (related.leafAt_eq_none lower).mpr mapped)
      exact ⟨pages, by simp [PageMap.step, aligned, taken], ext.represents alive related⟩
  | ok aligned ext absent writes =>
      have free := (related.leafAt_eq_none lower).mp absent
      have nxe := ext.lowerStep.nxe
      have frame : IsFrame p :=
        (isFrame_iff p).mpr ⟨(aligned4k_iff p).mp aligned.2, bounded⟩
      refine ⟨Function.update pages (pageOf v) (some (p, flags)),
        by simp [PageMap.step, aligned, free, ranOut],
        writes.represents ext.inv.toTrees alive lower (ext.represents alive related) ?_ ?_⟩
      · rw [Option.filter_some, present_leafWord, nxe]
        rfl
      · rintro item ⟨⟩
        exact frame

omit [PageTableFrameAlloc A] [LawfulFrameAlloc A] in
theorem ReplaceEnds.represents_unmap {r : Except MapError PUnit}
    (ends : ReplaceEnds live a v (fun _ _ => 0) s (r, s')) (trees : Trees live s.toMachine)
    (alive : live a) (lower : LowerHalf v)
    (related : Represents pages s.toMachine (s.rootOf a)) (refused : Bool) :
    ∃ pages', pages.step refused (.unmap v) = (.updated r, pages') ∧
      Represents pages' s'.toMachine (s'.rootOf a) := by
  cases ends with
  | unaligned bad => exact ⟨pages, by simp [PageMap.step, bad], related⟩
  | notMapped aligned absent =>
      have free := (related.leafAt_eq_none lower).mp absent
      exact ⟨pages, by simp [PageMap.step, aligned, free], related⟩
  | ok aligned mapped writes =>
      rw [related.leaves lower, Option.map_eq_some_iff] at mapped
      obtain ⟨item, taken, -⟩ := mapped
      refine ⟨Function.update pages (pageOf v) none,
        by simp [PageMap.step, aligned, taken],
        writes.represents trees alive lower related ?_ (by simp)⟩
      rw [Option.filter_some, present_zero]
      rfl

omit [PageTableFrameAlloc A] [LawfulFrameAlloc A] in
theorem ReplaceEnds.represents_protect {flags : MapFlags} {r : Except MapError PUnit}
    (ends : ReplaceEnds live a v (protectedEntry flags) s (r, s'))
    (trees : Trees live s.toMachine) (alive : live a) (lower : LowerHalf v)
    (related : Represents pages s.toMachine (s.rootOf a)) (refused : Bool) :
    ∃ pages', pages.step refused (.protect v flags) = (.updated r, pages') ∧
      Represents pages' s'.toMachine (s'.rootOf a) := by
  cases ends with
  | unaligned bad => exact ⟨pages, by simp [PageMap.step, bad], related⟩
  | notMapped aligned absent =>
      have free := (related.leafAt_eq_none lower).mp absent
      exact ⟨pages, by simp [PageMap.step, aligned, free], related⟩
  | ok aligned mapped writes =>
      rw [related.leaves lower, Option.map_eq_some_iff] at mapped
      obtain ⟨⟨p, old⟩, taken, rfl⟩ := mapped
      have frame : IsFrame p := related.frames taken
      refine ⟨Function.update pages (pageOf v) (some (p, flags)),
        by simp [PageMap.step, aligned, taken],
        writes.represents trees alive lower related ?_ (by rintro item ⟨⟩; exact frame)⟩
      -- the frame field of the old entry is the frame itself
      have kept : protectedEntry flags s.nxeEnabled (leafOf s.nxeEnabled (p, old)) =
          leafWord s.nxeEnabled p flags := by
        rw [protectedEntry, leafOf, leafWord_and_addrMask, leafWord]
      rw [kept, Option.filter_some, present_leafWord]
      rfl

end

/-- A call on `aspace`, with the result in the form of the specification. -/
def perform [PageTableFrameAlloc A] (aspace : AddressSpace) :
    PageOp → Sys A → PageResult × Sys A
  | .map v p flags, s =>
      let (result, s') := (map4k aspace v p flags).exec s
      (.updated result, s')
  | .unmap v, s =>
      let (result, s') := (unmap4k aspace v).exec s
      (.updated result, s')
  | .protect v flags, s =>
      let (result, s') := (protect4k aspace v flags).exec s
      (.updated result, s')
  | .translate v, s => (.translated (translate s.toMachine aspace v), s)

section

variable [PageTableFrameAlloc A]

/-- The run of `calls` on `aspace` from `s` is simulated step by step from the
abstract map `pages`: the map describes the leaf entries of every state, every
call returns what the map prescribes, and a call that fails leaves the map
unchanged. -/
def Simulated (aspace : AddressSpace) :
    PageMap → Sys (Recorded A) → List PageOp → Prop
  | pages, s, [] => Represents pages s.toMachine (s.asX86 aspace).pml4Phys
  | pages, s, call :: calls =>
      Represents pages s.toMachine (s.asX86 aspace).pml4Phys ∧
      ∃ result s' pages', perform aspace call s = (result, s') ∧
        pages.step (decide (none ∈ answersDuring s s')) call = (result, pages') ∧
        (result.isError = true → pages' = pages) ∧
        Simulated aspace pages' s' calls

variable [LawfulFrameAlloc A]
variable {live : Fin maxAddressSpaces → Prop} {a : Fin maxAddressSpaces}
variable {s : Sys (Recorded A)} {pages : PageMap}

theorem perform_refines (inv : TreesInv live s) (alive : live a)
    (related : Represents pages s.toMachine (s.rootOf a)) {call : PageOp}
    (inRange : call.InRange) :
    ∃ result s' pages', perform (.slot a) call s = (result, s') ∧
      pages.step (decide (none ∈ answersDuring s s')) call = (result, pages') ∧
      TreesInv live s' ∧ Represents pages' s'.toMachine (s'.rootOf a) := by
  cases call with
  | map v p flags =>
      obtain ⟨lower, bounded⟩ := inRange
      have ends := map4k_lower inv alive lower p flags
      rcases ran : (map4k (.slot a) v p flags).exec s with ⟨r, s'⟩
      rw [ran] at ends
      have refused : decide (none ∈ answersDuring s s') = ranOut r := by
        rw [Bool.eq_iff_iff, decide_eq_true_iff, ← map4k_outOfMemory_iff ran]
        rcases r with (_ | _ | _ | _ | _) | _ <;> simp [ranOut]
      obtain ⟨pages', step, related'⟩ := ends.represents alive lower bounded related
      exact ⟨.updated r, s', pages', by simp [perform, ran], refused ▸ step,
        (ends.lowerStep inv).inv, related'⟩
  | unmap v =>
      have ends := unmap4k_lower (s := s) alive inRange
      rcases ran : (unmap4k (.slot a) v).exec s with ⟨r, s'⟩
      rw [ran] at ends
      obtain ⟨pages', step, related'⟩ :=
        ends.represents_unmap inv.toTrees alive inRange related _
      exact ⟨.updated r, s', pages', by simp [perform, ran], step,
        (ends.lowerStep inv).inv, related'⟩
  | protect v flags =>
      have ends := protect4k_lower (s := s) alive inRange flags
      rcases ran : (protect4k (.slot a) v flags).exec s with ⟨r, s'⟩
      rw [ran] at ends
      obtain ⟨pages', step, related'⟩ :=
        ends.represents_protect inv.toTrees alive inRange related _
      exact ⟨.updated r, s', pages', by simp [perform, ran], step,
        (ends.lowerStep inv).inv, related'⟩
  | translate v =>
      refine ⟨_, s, pages, rfl, ?_, inv, related⟩
      rw [related.translate_eq (.slot a) inRange, PageMap.step]
      cases pages (pageOf v) <;> rfl

theorem simulated_of_represents (alive : live a) (calls : List PageOp)
    (inRange : ∀ call ∈ calls, call.InRange) (inv : TreesInv live s)
    (related : Represents pages s.toMachine (s.rootOf a)) :
    Simulated (.slot a) pages s calls := by
  induction calls generalizing s pages with
  | nil => exact related
  | cons call calls inductionHypothesis =>
      obtain ⟨result, s', pages', performed, step, inv', related'⟩ :=
        perform_refines inv alive related (inRange call List.mem_cons_self)
      exact ⟨related, result, s', pages', performed, step, PageMap.step_error step,
        inductionHypothesis (fun later inside => inRange later (.tail _ inside)) inv' related'⟩

end

/-! ### From creation on -/

section

variable [PageTableFrameAlloc A] [LawfulFrameAlloc A]

/-- Without live spaces there is nothing to keep. -/
theorem treesInv_nothing {s : Sys A} (valid : Valid s.ptAlloc) :
    TreesInv (fun _ => False) s where
  roots alive := alive.elim
  forest one _ := one.live.elim
  entries table := table.live.elim
  valid := valid
  held table := table.live.elim

/-- A new space represents the empty map. -/
theorem represents_empty {k : Machine} {root : PhysAddr}
    (empty : ∀ j < kernelPml4Start, readEntry k.mem root j = 0) :
    Represents .empty k root where
  leaves lower := leafAt_empty empty lower
  frames found := by simp [PageMap.empty] at found

/-- Every run of map, unmap, protect and translate calls on a new address space
is simulated by a partial map that starts empty. -/
theorem addressSpace_refines_pageMap (cpu : Cpu) {s₀ s₁ : Sys (Recorded A)}
    {aspace : AddressSpace} (valid : Valid s₀.ptAlloc)
    (created : (addressSpaceNew cpu).exec s₀ = (.ok aspace, s₁))
    (calls : List PageOp) (inRange : ∀ call ∈ calls, call.InRange) :
    Simulated aspace .empty s₁ calls := by
  have ends := addressSpaceNew_spec cpu (treesInv_nothing valid) (fun alive => alive.elim)
  rw [created] at ends
  cases ends with
  | ok free inv keeps fresh heldMono empty slots nxe handle =>
      refine simulated_of_represents (Or.inr rfl) calls inRange inv (represents_empty ?_)
      rw [Machine.rootOf, slots, Function.update_self]
      exact empty

end

/-- A run from boot: a page is mapped, translated at an offset, and unmapped. -/
theorem newSpace_refines_pageMap :
    ((addressSpaceNew bootCpu).exec (bootSys fun _ => 0)).1 = .ok (.slot 0) ∧
      Simulated (.slot 0) .empty ((addressSpaceNew bootCpu).exec (bootSys fun _ => 0)).2
        [.map 0x400000 0x7000 .user, .translate 0x400123, .unmap 0x400000] := by
  have created : ((addressSpaceNew bootCpu).exec (bootSys fun _ => 0)).1 = .ok (.slot 0) :=
    rfl
  refine ⟨created, addressSpace_refines_pageMap bootCpu trivial (Prod.ext created rfl) _ ?_⟩
  simp [PageOp.InRange, LowerHalf]

end RincOs
