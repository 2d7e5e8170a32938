/-
Module: RincOs.Proofs.WalkStability
Purpose: What the processor's walks see while an operation on a created space is
  under way.  In every memory an operation passes through, the walks from every
  live root are those from before, apart from the one page it updates.
Trusted boundary: the memories listed by `Call.Seen`
Main exports:
  Serves, Spares, SameWalks, ensureSeen, Call.Seen, seen_sameWalks
-/
import RincOs.Proofs.UserAccess

namespace RincOs

open RadixForest LawfulFrameAlloc

variable {A : Type}

/-! ### Frames an allocator never hands out -/

section

variable [PageTableFrameAlloc A] [LawfulFrameAlloc A]

/-- `Serves a a'`: allocations, and frees of frames that are held, lead from `a`
to `a'`. -/
inductive Serves (a : A) : A → Prop where
  | refl : Serves a a
  | alloc {a₁ a₂ : A} {m m' : Mem} {answer : Option PhysAddr} (before : Serves a a₁)
      (done : allocFrame4k a₁ m = (answer, a₂, m')) : Serves a a₂
  | free {a₁ : A} {f : PhysAddr} (before : Serves a a₁) (held : Held a₁ f) :
      Serves a (freeFrame4k a₁ f)

theorem Serves.trans {a a₁ a₂ : A} (one : Serves a a₁) (two : Serves a₁ a₂) : Serves a a₂ := by
  induction two with
  | refl => exact one
  | alloc _ done inductionHypothesis => exact inductionHypothesis.alloc done
  | free _ held inductionHypothesis => exact inductionHypothesis.free held

/-- The allocator holds none of the reserved frames and never will. -/
def Spares (reserved : PhysAddr → Prop) (a : A) : Prop :=
  ∀ a', Serves a a' → ∀ f, Held a' f → ¬ reserved f

theorem Spares.serves {reserved : PhysAddr → Prop} {a a' : A} (spares : Spares reserved a)
    (serves : Serves a a') : Spares reserved a' :=
  fun _ later => spares _ (serves.trans later)

theorem Spares.held {reserved : PhysAddr → Prop} {a : A} (spares : Spares reserved a)
    {f : PhysAddr} (held : Held a f) : ¬ reserved f :=
  spares a .refl f held

/-- Freeing held frames, each once. -/
theorem serves_freeAll {al : A} (frames : List PhysAddr) (valid : Valid al)
    (nodup : frames.Nodup) (held : ∀ f ∈ frames, Held al f) :
    Serves al (frames.foldl freeFrame4k al) := by
  induction frames generalizing al with
  | nil => exact .refl
  | cons f frames inductionHypothesis =>
      obtain ⟨valid', kept, -⟩ := free valid (held f List.mem_cons_self)
      obtain ⟨fresh, nodup⟩ := List.nodup_cons.mp nodup
      have first : Serves al (freeFrame4k al f) := .free .refl (held f List.mem_cons_self)
      apply first.trans
      apply inductionHypothesis valid' nodup
      intro g inside
      exact kept g (fun same => fresh (same ▸ inside)) (held g (.tail _ inside))

theorem map4k_serves (aspace : AddressSpace) (v : VirtAddr) (p : PhysAddr) (flags : MapFlags)
    (s : Sys A) : Serves s.ptAlloc ((map4k aspace v p flags).exec s).2.ptAlloc := by
  apply @map4k_keeps A _ fun s s' => Serves s.ptAlloc s'.ptAlloc
  · exact fun _ => .refl
  · exact fun _ taken later => Serves.trans (.alloc .refl taken) later
  · exact fun _ _ serves => serves

theorem addressSpaceNew_serves (cpu : Cpu) (s : Sys A) :
    Serves s.ptAlloc ((addressSpaceNew cpu).exec s).2.ptAlloc := by
  obtain ⟨s0, adopts, done | ⟨kernel, -, done⟩⟩ := addressSpaceNew_cases cpu s
  · rw [done, adopts.ptAlloc]
    exact .refl
  · rw [done, ← adopts.ptAlloc]
    rcases newFromKernel_cases kernel.pml4Phys s0 with
      ⟨al, m, alloc, done⟩ | ⟨f, al, m, alloc, ⟨-, done⟩ | ⟨i, -, done⟩⟩
    · rw [done]
      exact .alloc .refl alloc
    · rw [done]
      exact .alloc .refl alloc
    · rw [done]
      exact .alloc .refl alloc

theorem addressSpaceDestroy_serves {s : Sys A} {a : Fin maxAddressSpaces} (inv : RunInv s)
    (used : Used s.toMachine a) :
    Serves s.ptAlloc (addressSpaceDestroy (.slot a) s).ptAlloc := by
  have destroys := addressSpaceDestroy_spec inv.trees inv.handles used used
  rw [destroys.freed]
  apply serves_freeAll _ inv.trees.valid (inv.trees.destroyedFrames_nodup used)
  intro f inside
  obtain ⟨path, table⟩ := (inv.trees.mem_destroyedFrames used).mp inside
  exact inv.trees.held table

omit [PageTableFrameAlloc A] [LawfulFrameAlloc A] in
theorem ReplaceEnds.ptAlloc {live : Fin maxAddressSpaces → Prop} {a : Fin maxAddressSpaces}
    {v : VirtAddr} {update : Bool → Word → Word} {s s' : Sys A} {r : Except MapError PUnit}
    (ends : ReplaceEnds live a v update s (r, s')) : s'.ptAlloc = s.ptAlloc := by
  cases ends with
  | unaligned => rfl
  | notMapped => rfl
  | ok _ _ writes => rw [writes.rest]

/-- All calls use the allocator by allocating and freeing held frames only. -/
theorem lowerCall_serves {s s' : Sys A} {call : Call} {result : Except MapError AddressSpace}
    (inv : RunInv s) (may : LowerCall s.toMachine call) (done : call.exec s = (result, s')) :
    Serves s.ptAlloc s'.ptAlloc := by
  cases lowerCall_ends inv may done with
  | @new cpu =>
      have serves := addressSpaceNew_serves cpu s
      rw [Call.exec] at done
      rwa [done] at serves
  | destroy used =>
      obtain ⟨-, rfl⟩ := Prod.mk.inj done
      exact addressSpaceDestroy_serves inv used
  | @map a v p flags =>
      obtain ⟨-, rfl⟩ := Prod.mk.inj done
      exact map4k_serves (.slot a) v p flags s
  | unmap _ _ ends =>
      rw [ends.ptAlloc]
      exact .refl
  | protect _ _ ends =>
      rw [ends.ptAlloc]
      exact .refl

/-! ### Memories with the same walks -/

/-- What the processor finds below the live roots of `k` is the same in memory
`m`, apart from the flushed addresses: the words of the reserved tables, the
kernel half of every live root, and the walks in the lower halves. -/
structure SameWalks (reserved : PhysAddr → Prop) (flushed : VirtAddr → Prop)
    (k : Machine) (m : Mem) : Prop where
  kernel : ∀ {t}, reserved t → ∀ i, readEntry m t i = readEntry k.mem t i
  upper : ∀ {a}, Used k a → ∀ i, kernelPml4Start ≤ i →
    readEntry m (k.rootOf a) i = readEntry k.mem (k.rootOf a) i
  lower : ∀ {a w}, Used k a → LowerHalf w → ¬ flushed w →
    hwWalk m (k.rootOf a) w = hwWalk k.mem (k.rootOf a) w

variable {reserved : PhysAddr → Prop} {flushed : VirtAddr → Prop}

omit [PageTableFrameAlloc A] [LawfulFrameAlloc A] in
theorem SameWalks.refl (k : Machine) : SameWalks reserved flushed k k.mem :=
  ⟨fun _ _ => rfl, fun _ _ _ => rfl, fun _ _ _ => rfl⟩

omit [PageTableFrameAlloc A] [LawfulFrameAlloc A] in
theorem SameWalks.trans {k k' : Machine} {m : Mem}
    (one : SameWalks reserved flushed k k'.mem) (slots : k'.asSlots = k.asSlots)
    (two : SameWalks reserved flushed k' m) : SameWalks reserved flushed k m := by
  have used : ∀ {a}, Used k a → Used k' a := fun {a} inUse => by
    rw [Used, slots]
    exact inUse
  have root : ∀ a, k'.rootOf a = k.rootOf a := fun a => by
    rw [Machine.rootOf, Machine.rootOf, slots]
  refine ⟨fun isReserved i => ?_, fun {a} inUse i upper => ?_, fun {a w} inUse lower other => ?_⟩
  · exact (two.kernel isReserved i).trans (one.kernel isReserved i)
  · have later := two.upper (used inUse) i upper
    rw [root] at later
    exact later.trans (one.upper inUse i upper)
  · have later := two.lower (used inUse) lower other
    rw [root] at later
    exact later.trans (one.lower inUse lower other)

/-- Writes to held frames do not reach the reserved tables. -/
theorem Spares.read_eq {al : A} {m m' : Mem} (spares : Spares reserved al)
    (frames : ∀ t, reserved t → IsFrame t)
    (written : ∀ x, m' x = m x ∨ ∃ t, IsFrame t ∧ InFrame t x ∧ Held al t)
    {t : PhysAddr} (isReserved : reserved t) (i : Fin entryCount) :
    readEntry m' t i = readEntry m t i := by
  rcases written (entryAddr t i) with same | ⟨f, isFrame, inside, held⟩
  · exact same
  · have same := (inFrame_entryAddr_iff (frames t isReserved) isFrame i).mp inside
    exact absurd isReserved (spares.held (same ▸ held))

section

variable {live : Fin maxAddressSpaces → Prop} {a b : Fin maxAddressSpaces}
variable {k k' : Machine} {v w : VirtAddr}

omit [PageTableFrameAlloc A] [LawfulFrameAlloc A] in
/-- A lower-half walk depends on the leaf entry and, if there is one, on the user
bits above it. -/
theorem hwWalk_lower_congr {root : PhysAddr} (trees : Trees live k) (trees' : Trees live k')
    (alive : live b) (lower : LowerHalf w) (roots : k'.rootOf b = root)
    (leaf : leafAt k'.mem (k'.rootOf b) w = leafAt k.mem (k.rootOf b) w)
    (path : walkToPt k.mem (k.rootOf b) w ≠ none →
      userPath k'.mem (k'.rootOf b) w = userPath k.mem (k.rootOf b) w) :
    hwWalk k'.mem root w = hwWalk k.mem (k.rootOf b) w := by
  rw [← roots, hwWalk_lower trees' alive lower, hwWalk_lower trees alive lower, leaf]
  cases walked : walkToPt k.mem (k.rootOf b) w with
  | none =>
      rw [leafAt_eq_none_of_walk walked]
      rfl
  | some pt =>
      have same := path (by simp [walked])
      rw [userPath, userPath] at same
      rw [same]

omit [PageTableFrameAlloc A] [LawfulFrameAlloc A] in
theorem Keeps.sameWalks {m : Mem} (keeps : Keeps (Used k) k { k with mem := m })
    (trees : Trees (Used k) k)
    (kernel : ∀ {t}, reserved t → ∀ i, readEntry m t i = readEntry k.mem t i) :
    SameWalks reserved flushed k m where
  kernel := kernel
  upper {a} inUse i _ := by
    have root : HasTable (Used k) k a [] (k.rootOf a) := .root inUse
    exact keeps.words root i
  lower inUse lower _ :=
    hwWalk_lower_congr trees (keeps.trees trees) inUse lower rfl
      (keeps.leafAt_eq inUse lower) fun _ => keeps.userPath_eq inUse lower

theorem Extends.sameWalks {user : Bool} {s s' : Sys A}
    (ext : Extends (Used s.toMachine) a user s s') (inv : TreesInv (Used s.toMachine) s)
    (kernel : ∀ {t}, reserved t → ∀ i, readEntry s'.mem t i = readEntry s.mem t i) :
    SameWalks reserved flushed s.toMachine s'.mem where
  kernel := kernel
  upper {b} inUse i upper := by
    have root : HasTable (Used s.toMachine) s.toMachine b [] (s.rootOf b) := .root inUse
    rcases ext.words root i with same | ⟨-, admitted, -⟩
    · exact same
    · exact absurd (admitted.2 i rfl) (not_lt.mpr upper)
  lower {b w} inUse lower _ :=
    hwWalk_lower_congr inv.toTrees ext.inv.toTrees inUse lower (ext.rootOf b)
      (ext.leafAt_eq inUse lower) (ext.userPath_complete inUse lower)

omit [PageTableFrameAlloc A] [LawfulFrameAlloc A] in
/-- A leaf write changes the walks of its own page only. -/
theorem WritesLeaf.sameWalks {e : Word} {s s' : Sys A}
    (writes : WritesLeaf (Used s.toMachine) a v e s s')
    (trees : Trees (Used s.toMachine) s.toMachine) (target : LowerHalf v)
    (kernel : ∀ {t}, reserved t → ∀ i, readEntry s'.mem t i = readEntry s.mem t i) :
    SameWalks reserved (fun w => pageOf w = pageOf v) s.toMachine s'.mem where
  kernel := kernel
  upper {b} inUse i _ := by
    have root : HasTable (Used s.toMachine) s.toMachine b [] (s.rootOf b) := .root inUse
    rw [writes.write.read trees root, if_neg]
    rintro ⟨-, shallow, -⟩
    cases shallow
  lower {b w} inUse lower other := by
    have roots : s'.rootOf b = s.rootOf b := by
      rw [Machine.rootOf, Machine.rootOf, writes.write.asSlots]
    apply hwWalk_lower_congr trees (writes.write.trees trees) inUse lower roots
    · rw [writes.write.leafAt_eq trees inUse target lower, if_neg fun both => other both.2]
    · exact fun _ => writes.write.userPath_eq trees inUse lower

end

end

/-! ### The memories a call passes through -/

/-- Memory while `alloc_frame_4k` runs and its frame is being filled: nothing
outside the frame changes, and its contents may be anything. -/
def allocSeen [PageTableFrameAlloc A] (s : Sys A) (m : Mem) : Prop :=
  match allocFrame4k s.ptAlloc s.mem with
  | (none, _, _) => m = s.mem
  | (some f, _, _) => ∀ x, ¬ InFrame f x → m x = s.mem x

/-- The memories between the writes of successive `ensure_table` calls. -/
def ensureSeen [PageTableFrameAlloc A] (user : Bool) :
    PhysAddr → List (Fin entryCount) → Sys A → Mem → Prop
  | _, [], s, m => m = s.mem
  | t, i :: path, s, m =>
      if present (readEntry s.mem t i) then
        ensureSeen user (readEntry s.mem t i &&& addrMask) path s m
      else
        allocSeen s m ∨
          match allocFrame4k s.ptAlloc s.mem with
          | (none, _, _) => False
          | (some f, al, m') =>
              ensureSeen user f path
                { s with ptAlloc := al, mem := linkTable m' t i f user } m

/-- The memories a walk may read while the call is executed. -/
def Call.Seen [PageTableFrameAlloc A] (call : Call) (s : Sys A) (m : Mem) : Prop :=
  m = s.mem ∨ m = (call.exec s).2.mem ∨
    match call with
    | .new _ => allocSeen s m
    | .map aspace v _ flags =>
        ensureSeen (flags.contains .user) (s.asX86 aspace).pml4Phys (tablePath v) s m
    | .destroy _ | .unmap _ _ | .protect _ _ _ => False

section

variable [PageTableFrameAlloc A] [LawfulFrameAlloc A]
variable {reserved : PhysAddr → Prop} {flushed : VirtAddr → Prop}
variable {a : Fin maxAddressSpaces} {s s' : Sys A} {m : Mem}

theorem allocSeen_sameWalks (inv : TreesInv (Used s.toMachine) s)
    (spares : Spares reserved s.ptAlloc) (frames : ∀ t, reserved t → IsFrame t)
    (seen : allocSeen s m) : SameWalks reserved flushed s.toMachine m := by
  rw [allocSeen] at seen
  rcases alloc : allocFrame4k s.ptAlloc s.mem with ⟨_ | f, al, m'⟩
  · rw [alloc] at seen
    exact seen ▸ .refl s.toMachine
  · rw [alloc] at seen
    obtain ⟨-, newFrame, free, held, -⟩ := alloc_some inv.valid alloc
    have words : ∀ {b path t}, HasTable (Used s.toMachine) s.toMachine b path t →
        ∀ i, readEntry m t i = readEntry s.mem t i :=
      fun table i => inv.read_outside newFrame free seen table i
    have keeps : Keeps (Used s.toMachine) s.toMachine { s.toMachine with mem := m } :=
      ⟨fun _ => rfl, words⟩
    apply keeps.sameWalks inv.toTrees
    apply (spares.serves (.alloc .refl alloc)).read_eq frames
    intro x
    by_cases inside : InFrame f x
    · exact Or.inr ⟨f, newFrame, inside, (held f).mpr (Or.inr rfl)⟩
    · exact Or.inl (seen x inside)

/-- Extending a tree writes held frames only. -/
theorem Extends.kernel_eq {user : Bool} (ext : Extends (Used s.toMachine) a user s s')
    (inv : TreesInv (Used s.toMachine) s) (spares : Spares reserved s'.ptAlloc)
    (frames : ∀ t, reserved t → IsFrame t) {t : PhysAddr} (isReserved : reserved t)
    (i : Fin entryCount) : readEntry s'.mem t i = readEntry s.mem t i := by
  apply spares.read_eq frames (fun x => ?_) isReserved
  rcases ext.frame x with same | ⟨f, isFrame, inside, ⟨path, table⟩ | ⟨-, held⟩⟩
  · exact Or.inl same
  · exact Or.inr ⟨f, isFrame, inside, ext.heldMono (inv.held table)⟩
  · exact Or.inr ⟨f, isFrame, inside, held⟩

theorem ensureSeen_sameWalks {user : Bool} {above rest : List (Fin entryCount)} {t : PhysAddr}
    (inv : TreesInv (Used s.toMachine) s) (spares : Spares reserved s.ptAlloc)
    (frames : ∀ t, reserved t → IsFrame t)
    (table : HasTable (Used s.toMachine) s.toMachine a above t)
    (admitted : LowerPath 3 (above ++ rest)) (seen : ensureSeen user t rest s m) :
    SameWalks reserved flushed s.toMachine m := by
  induction rest generalizing s above t with
  | nil =>
      rw [ensureSeen] at seen
      exact seen ▸ .refl s.toMachine
  | cons i rest inductionHypothesis =>
      obtain ⟨step, further⟩ := admitted.next
      rw [ensureSeen] at seen
      by_cases isPresent : present (readEntry s.mem t i) = true
      · rw [if_pos isPresent] at seen
        exact inductionHypothesis inv spares
          (table.child step (nextTable_eq_some.mpr ⟨isPresent, rfl⟩)) further seen
      · rw [if_neg isPresent] at seen
        rcases seen with filling | linked
        · exact allocSeen_sameWalks inv spares frames filling
        · rcases alloc : allocFrame4k s.ptAlloc s.mem with ⟨_ | f, al, m'⟩
          · rw [alloc] at linked
            exact linked.elim
          · rw [alloc] at linked
            have linking : Extends (Used s.toMachine) a user s _ ∧ _ :=
              link_extends inv table step (by simpa using isPresent) alloc
            obtain ⟨ext, child⟩ := linking
            have serves : Serves s.ptAlloc al := .alloc .refl alloc
            have first : SameWalks reserved flushed s.toMachine _ :=
              ext.sameWalks inv (ext.kernel_eq inv (spares.serves serves) frames)
            apply first.trans rfl
            exact inductionHypothesis ext.inv (spares.serves serves) child further linked

/-- The addresses whose page one of the instructions invalidates. -/
def FlushedBy (ops : List TlbOp) (w : VirtAddr) : Prop :=
  ∃ v, TlbOp.invlpg v ∈ ops ∧ pageOf w = pageOf v

omit [PageTableFrameAlloc A] [LawfulFrameAlloc A] in
theorem SameWalks.mono {more : VirtAddr → Prop} {k : Machine}
    (same : SameWalks reserved flushed k m) (sub : ∀ w, flushed w → more w) :
    SameWalks reserved more k m :=
  ⟨same.kernel, same.upper, fun inUse lower other =>
    same.lower inUse lower fun inside => other (sub _ inside)⟩

omit [PageTableFrameAlloc A] [LawfulFrameAlloc A] in
theorem WritesLeaf.flushes {v : VirtAddr} {e : Word} {live : Fin maxAddressSpaces → Prop}
    {s₁ : Sys A} {ops : List TlbOp} (writes : WritesLeaf live a v e s₁ s')
    (before : s₁.tlbOps = s.tlbOps) (maintained : s'.tlbOps = s.tlbOps ++ ops) (w : VirtAddr)
    (page : pageOf w = pageOf v) : FlushedBy ops w := by
  rw [writes.rest, before] at maintained
  obtain rfl := List.append_cancel_left maintained
  exact ⟨v, List.mem_singleton.mpr rfl, page⟩

theorem MapEnds.sameWalks {v : VirtAddr} {p : PhysAddr} {flags : MapFlags}
    {ops : List TlbOp} {result : Except MapError PUnit}
    (ends : MapEnds (Used s.toMachine) a v p flags s (result, s'))
    (inv : TreesInv (Used s.toMachine) s) (lower : LowerHalf v)
    (kernel : ∀ {t}, reserved t → ∀ i, readEntry s'.mem t i = readEntry s.mem t i)
    (spares : Spares reserved s'.ptAlloc) (frames : ∀ t, reserved t → IsFrame t)
    (maintained : s'.tlbOps = s.tlbOps ++ ops) :
    SameWalks reserved (FlushedBy ops) s.toMachine s'.mem := by
  cases ends with
  | unaligned => exact .refl s.toMachine
  | outOfMemory _ ext => exact ext.sameWalks inv kernel
  | alreadyMapped _ ext => exact ext.sameWalks inv kernel
  | @ok s₁ _ _ ext _ writes =>
      have used : Used s₁.toMachine = Used s.toMachine := used_congr ext.asSlots
      have sparesBefore : Spares reserved s₁.ptAlloc := by
        rw [writes.rest] at spares
        exact spares
      have grown : ∀ {t}, reserved t → ∀ i, readEntry s₁.mem t i = readEntry s.mem t i :=
        ext.kernel_eq inv sparesBefore frames
      have flushes := writes.flushes (by rw [ext.rest]) maintained
      have first : SameWalks reserved (FlushedBy ops) s.toMachine s₁.mem :=
        ext.sameWalks inv grown
      rw [← used] at writes
      have trees : Trees (Used s₁.toMachine) s₁.toMachine := used ▸ ext.inv.toTrees
      have second := writes.sameWalks trees lower fun isReserved i =>
        (kernel isReserved i).trans (grown isReserved i).symm
      exact first.trans ext.asSlots (second.mono flushes)

omit [PageTableFrameAlloc A] [LawfulFrameAlloc A] in
theorem ReplaceEnds.sameWalks {v : VirtAddr} {update : Bool → Word → Word}
    {ops : List TlbOp} {result : Except MapError PUnit}
    (ends : ReplaceEnds (Used s.toMachine) a v update s (result, s'))
    (trees : Trees (Used s.toMachine) s.toMachine) (lower : LowerHalf v)
    (kernel : ∀ {t}, reserved t → ∀ i, readEntry s'.mem t i = readEntry s.mem t i)
    (maintained : s'.tlbOps = s.tlbOps ++ ops) :
    SameWalks reserved (FlushedBy ops) s.toMachine s'.mem := by
  cases ends with
  | unaligned => exact .refl s.toMachine
  | notMapped => exact .refl s.toMachine
  | ok _ _ writes =>
      exact (writes.sameWalks trees lower kernel).mono (writes.flushes rfl maintained)

/-- When a call is over, the walks are those from before it, apart from the pages
it invalidated. -/
theorem call_sameWalks {call : Call} {result : Except MapError AddressSpace}
    {ops : List TlbOp} (inv : RunInv s) (spares : Spares reserved s.ptAlloc)
    (frames : ∀ t, reserved t → IsFrame t) (may : LowerCall s.toMachine call)
    (done : call.exec s = (result, s')) (maintained : s'.tlbOps = s.tlbOps ++ ops) :
    SameWalks reserved (FlushedBy ops) s.toMachine s'.mem := by
  have ends := lowerCall_step inv may done
  have sparesAfter := spares.serves (lowerCall_serves inv may done)
  have kernel : ∀ {t}, reserved t → ∀ i, readEntry s'.mem t i = readEntry s.mem t i :=
    sparesAfter.read_eq frames ends.frame
  cases lowerCall_ends inv may done with
  | new =>
      have keeps : Keeps (Used s.toMachine) s.toMachine { s.toMachine with mem := s'.mem } :=
        ⟨fun _ => rfl, fun table =>
          ends.keeps.words (HasTable.mono (fun inUse => ⟨inUse, id⟩) table)⟩
      exact keeps.sameWalks inv.trees.toTrees kernel
  | destroy _ destroys =>
      rw [destroys.machine]
      exact .refl s.toMachine
  | map _ lower ends =>
      exact ends.sameWalks inv.trees lower kernel sparesAfter frames maintained
  | unmap _ lower ends => exact ends.sameWalks inv.trees.toTrees lower kernel maintained
  | protect _ lower ends => exact ends.sameWalks inv.trees.toTrees lower kernel maintained

/-- The same holds of every memory the call passes through. -/
theorem seen_sameWalks {call : Call} {result : Except MapError AddressSpace}
    {ops : List TlbOp} (inv : RunInv s) (spares : Spares reserved s.ptAlloc)
    (frames : ∀ t, reserved t → IsFrame t) (may : LowerCall s.toMachine call)
    (done : call.exec s = (result, s')) (maintained : s'.tlbOps = s.tlbOps ++ ops)
    (seen : call.Seen s m) : SameWalks reserved (FlushedBy ops) s.toMachine m := by
  rcases seen with rfl | rfl | between
  · exact .refl s.toMachine
  · rw [done]
    exact call_sameWalks inv spares frames may done maintained
  · cases call with
    | new cpu => exact allocSeen_sameWalks inv.trees spares frames between
    | map aspace v p flags =>
        obtain ⟨a, rfl, used, lower⟩ := may
        have root : HasTable (Used s.toMachine) s.toMachine a [] (s.rootOf a) := .root used
        exact ensureSeen_sameWalks inv.trees spares frames root lower.tablePath between
    | destroy | unmap | protect => exact between.elim

end

end RincOs
