/-
Module: RincOs.Spec.PageMap
Purpose: What the lower half of one address space is for: a partial map from
  page numbers to frames with flags, and the answer every call has to give.
Trusted boundary: specification
Main exports:
  PageMap, PageOp, PageResult, PageMap.step
-/
import RincOs.Proofs.EntryBits

namespace RincOs

/-- A partial map from 4 KiB page numbers to a frame and the flags it was last
mapped or protected with. -/
abbrev PageMap := Nat → Option (PhysAddr × MapFlags)

def PageMap.empty : PageMap := fun _ => none

/-- A call on one address space. -/
inductive PageOp where
  | map (v : VirtAddr) (p : PhysAddr) (flags : MapFlags)
  | unmap (v : VirtAddr)
  | protect (v : VirtAddr) (flags : MapFlags)
  | translate (v : VirtAddr)

/-- Virtual addresses of the lower half, physical addresses below `2 ^ 52`. -/
def PageOp.InRange : PageOp → Prop
  | .map v p _ => LowerHalf v ∧ p.toNat < 2 ^ 52
  | .unmap v | .protect v _ | .translate v => LowerHalf v

inductive PageResult where
  | updated (result : Except MapError PUnit)
  | translated (result : Except TranslateError PhysAddr)

def PageResult.isError : PageResult → Bool
  | .updated (.error _) | .translated (.error _) => true
  | _ => false

/-- The answer to a call and the map after it.  `refused` says whether an
allocation failed during the call. -/
def PageMap.step (refused : Bool) (pages : PageMap) : PageOp → PageResult × PageMap
  | .map v p flags =>
      if !aligned4k v || !aligned4k p then (.updated (.error .unaligned), pages)
      else
        match pages (pageOf v) with
        | some _ => (.updated (.error .alreadyMapped), pages)
        | none =>
            if refused then (.updated (.error .outOfMemory), pages)
            else
              (.updated (.ok ⟨⟩), Function.update pages (pageOf v) (some (p, flags)))
  | .unmap v =>
      if !aligned4k v then (.updated (.error .unaligned), pages)
      else
        match pages (pageOf v) with
        | none => (.updated (.error .notMapped), pages)
        | some _ => (.updated (.ok ⟨⟩), Function.update pages (pageOf v) none)
  | .protect v flags =>
      if !aligned4k v then (.updated (.error .unaligned), pages)
      else
        match pages (pageOf v) with
        | none => (.updated (.error .notMapped), pages)
        | some (p, _) =>
            (.updated (.ok ⟨⟩), Function.update pages (pageOf v) (some (p, flags)))
  | .translate v =>
      match pages (pageOf v) with
      | none => (.translated (.error .notMapped), pages)
      | some (p, _) => (.translated (.ok (p ||| (v &&& 0xfff))), pages)

/-- A call that fails leaves the map as it was. -/
theorem PageMap.step_error {refused : Bool} {pages pages' : PageMap} {op : PageOp}
    {result : PageResult} (stepped : pages.step refused op = (result, pages'))
    (failed : result.isError = true) : pages' = pages := by
  cases op with
  | map v p flags | unmap v | protect v flags | translate v =>
      rw [PageMap.step] at stepped
      repeat' split at stepped
      all_goals
        obtain ⟨rfl, rfl⟩ := Prod.mk.inj stepped
        first | rfl | cases failed

end RincOs
