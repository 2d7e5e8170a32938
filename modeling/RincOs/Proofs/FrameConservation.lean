/-
Module: RincOs.Proofs.FrameConservation
Purpose: The boot allocator gives its frames from the top of one pool, the free
  list followed by the pages ahead of the cursor.  A client that frees frames
  while the free list has room loses none of them; a frame freed to a full list
  is gone.
Trusted boundary: the memory map is not overwritten while the allocator runs
Main exports:
  BootPtAlloc.pool, TakesTop, FrameRun, NothingLost, nothingLost_of_room,
  frame_129_lost
-/
import RincOs.Proofs.FrameOwnership

namespace RincOs

/-! ### The pool of the allocator -/

/-- What `alloc_frame_4k` can return, in the order in which it does. -/
def BootPtAlloc.pool (view : Nat → MemMapEntry) (self : BootPtAlloc) : List PhysAddr :=
  self.freeList ++ self.remaining view

/-- The cursor is in a map whose usable entries end early enough. -/
structure InRange (view : Nat → MemMapEntry) (alloc : BootPtAlloc) : Prop where
  below : UsableUpTo cursorLimit view alloc.entryCount
  cursor : alloc.curAddr.toNat ≤ cursorLimit

/-- The top of the pool is taken; it comes off the free list unless that is
empty. -/
structure TakesTop (view : Nat → MemMapEntry) (before after : BootPtAlloc)
    (answer : Option PhysAddr) : Prop where
  inRange : InRange view after
  answer : answer = (before.pool view).head?
  pool : after.pool view = (before.pool view).tail
  freeList : after.freeList = before.freeList.tail

theorem takeFrame_takesTop {view : Nat → MemMapEntry} {alloc after : BootPtAlloc}
    {answer : Option PhysAddr} (inRange : InRange view alloc)
    (taken : alloc.takeFrame view = (answer, after)) : TakesTop view alloc after answer := by
  rcases takeFrame_cases view alloc with ⟨top, rest, short, free, done⟩ | ⟨empty, done⟩
  · rw [done] at taken
    obtain ⟨rfl, rfl⟩ := Prod.mk.inj taken
    refine ⟨⟨inRange.below, inRange.cursor⟩, ?_, ?_, ?_⟩
    · rw [BootPtAlloc.pool, free]
      rfl
    · rw [BootPtAlloc.pool, BootPtAlloc.pool, free]
      rfl
    · rw [free]
      rfl
  · obtain ⟨same, cursor, head, rest⟩ :=
      nextFromMap_upTo le_rfl inRange.below inRange.cursor
    rw [← done, taken] at same cursor head rest
    dsimp only at same cursor head rest
    have count : after.entryCount = alloc.entryCount := by rw [same]
    have free : after.freeList = [] := by rw [same, ← empty]
    refine ⟨⟨count ▸ inRange.below, cursor⟩, ?_, ?_, ?_⟩
    · rw [BootPtAlloc.pool, empty]
      exact head
    · rw [BootPtAlloc.pool, BootPtAlloc.pool, empty, free]
      exact rest
    · rw [free, empty]
      rfl

theorem allocFrame4k_takesTop {view : Nat → MemMapEntry} {alloc after : BootPtAlloc}
    {m m' : Mem} {answer : Option PhysAddr} (inRange : InRange view alloc)
    (done : alloc.allocFrame4k view m = (answer, after, m')) :
    TakesTop view alloc after answer :=
  takeFrame_takesTop inRange (allocFrame4k_eq done).1

/-- `free_frame_4k` puts the frame on top of the pool, if the list has room. -/
theorem freeFrame4k_room {view : Nat → MemMapEntry} {alloc : BootPtAlloc} (f : PhysAddr)
    (room : alloc.freeList.length < maxFreeFrames) :
    (alloc.freeFrame4k f).pool view = f :: alloc.pool view ∧
      (alloc.freeFrame4k f).freeList = f :: alloc.freeList := by
  rw [BootPtAlloc.freeFrame4k, dif_pos room]
  exact ⟨rfl, rfl⟩

theorem InRange.freeFrame4k {view : Nat → MemMapEntry} {alloc : BootPtAlloc}
    (inRange : InRange view alloc) (f : PhysAddr) : InRange view (alloc.freeFrame4k f) := by
  rw [BootPtAlloc.freeFrame4k]
  split
  · exact ⟨inRange.below, inRange.cursor⟩
  · exact inRange

/-! ### Allocations in a row -/

/-- The answers of `alloc_frame_4k` to so many calls in a row. -/
def BootPtAlloc.answers (view : Nat → MemMapEntry) :
    Nat → BootPtAlloc → Mem → List (Option PhysAddr)
  | 0, _, _ => []
  | calls + 1, alloc, m =>
      let (answer, after, m') := alloc.allocFrame4k view m
      answer :: answers view calls after m'

/-- As many calls succeed as there are frames in the pool. -/
theorem answers_eq {view : Nat → MemMapEntry} {calls : Nat} {alloc : BootPtAlloc} {m : Mem}
    (inRange : InRange view alloc) (enough : calls ≤ (alloc.pool view).length) :
    alloc.answers view calls m = ((alloc.pool view).take calls).map some := by
  induction calls generalizing alloc m with
  | zero => rfl
  | succ calls inductionHypothesis =>
      rcases done : alloc.allocFrame4k view m with ⟨answer, after, m'⟩
      have taken := allocFrame4k_takesTop inRange done
      cases pool : alloc.pool view with
      | nil => simp [pool] at enough
      | cons top rest =>
          have left : after.pool view = rest := by rw [taken.pool, pool, List.tail_cons]
          have tail : after.answers view calls m' = (rest.take calls).map some := by
            rw [← left]
            apply inductionHypothesis taken.inRange
            rw [pool, List.length_cons] at enough
            rw [left]
            exact Nat.le_of_succ_le_succ enough
          rw [BootPtAlloc.answers, done, List.take_succ_cons, List.map_cons, ← tail,
            taken.answer, pool, List.head?_cons]

/-! ### Clients -/

/-- A call of the allocator, with its answer. -/
inductive FrameEvent where
  | alloc (answer : Option PhysAddr)
  | free (f : PhysAddr)
deriving DecidableEq

/-- The frames a client holds after the calls of a history, which lists the
latest call first. -/
def heldBy : List FrameEvent → List PhysAddr
  | [] => []
  | .alloc none :: past => heldBy past
  | .alloc (some f) :: past => f :: heldBy past
  | .free f :: past => (heldBy past).erase f

/-- Calls of `alloc_frame_4k` and `free_frame_4k` in any order by a client that
frees frames it holds, at moments at which it may. -/
inductive FrameRun (view : Nat → MemMapEntry) (mayFree : BootPtAlloc → Prop)
    (alloc₀ : BootPtAlloc) (m₀ : Mem) : List FrameEvent → BootPtAlloc → Mem → Prop where
  | start : FrameRun view mayFree alloc₀ m₀ [] alloc₀ m₀
  | alloc {history : List FrameEvent} {alloc after : BootPtAlloc} {m m' : Mem}
      {answer : Option PhysAddr} (before : FrameRun view mayFree alloc₀ m₀ history alloc m)
      (done : alloc.allocFrame4k view m = (answer, after, m')) :
      FrameRun view mayFree alloc₀ m₀ (.alloc answer :: history) after m'
  | free {history : List FrameEvent} {alloc : BootPtAlloc} {m : Mem} {f : PhysAddr}
      (before : FrameRun view mayFree alloc₀ m₀ history alloc m)
      (held : f ∈ heldBy history) (may : mayFree alloc) :
      FrameRun view mayFree alloc₀ m₀ (.free f :: history) (alloc.freeFrame4k f) m

/-- After the calls of `history` no frame is lost to the client. -/
structure NothingLost (view : Nat → MemMapEntry) (count : Nat) (history : List FrameEvent)
    (alloc : BootPtAlloc) (m : Mem) : Prop where
  kept : ∀ f, .alloc (some f) ∈ history → f ∈ heldBy history ∨ f ∈ alloc.freeList
  refused : (alloc.allocFrame4k view m).1 = none →
    ∀ f, WholePage view count f → f ∈ heldBy history
  again : ∀ (frees : List PhysAddr) past, history = frees.map .free ++ past →
    ∀ answer ∈ alloc.answers view frees.length m, answer.isSome = true

/-! ### Conservation -/

/-- The frames held and those in the pool are the frames of the map. -/
structure Conserved (view : Nat → MemMapEntry) (pages : List PhysAddr)
    (history : List FrameEvent) (alloc : BootPtAlloc) : Prop where
  inRange : InRange view alloc
  balance : (heldBy history ++ alloc.pool view).Perm pages
  kept : ∀ f, .alloc (some f) ∈ history → f ∈ heldBy history ∨ f ∈ alloc.freeList
  freed : ∀ (frees : List PhysAddr) past, history = frees.map .free ++ past →
    frees.length ≤ (alloc.pool view).length

section

variable {view : Nat → MemMapEntry} {pages : List PhysAddr} {history : List FrameEvent}
  {alloc after : BootPtAlloc} {f : PhysAddr}

theorem Conserved.refuse (conserved : Conserved view pages history alloc)
    (taken : TakesTop view alloc after none) :
    Conserved view pages (.alloc none :: history) after := by
  have empty : alloc.pool view = [] := List.head?_eq_none_iff.mp taken.answer.symm
  have free : alloc.freeList = [] := (List.append_eq_nil_iff.mp empty).1
  refine ⟨taken.inRange, ?_, fun g given => ?_, fun frees past split => ?_⟩
  · rw [heldBy, taken.pool, empty, List.tail_nil, ← empty]
    exact conserved.balance
  · rw [taken.freeList, free, List.tail_nil, ← free]
    exact conserved.kept g (List.mem_of_ne_of_mem (by simp) given)
  · cases frees with
    | nil => exact Nat.zero_le _
    | cons => simp at split

theorem Conserved.give (conserved : Conserved view pages history alloc)
    (taken : TakesTop view alloc after (some f)) :
    Conserved view pages (.alloc (some f) :: history) after := by
  obtain ⟨rest, pool⟩ := List.head?_eq_some_iff.mp taken.answer.symm
  refine ⟨taken.inRange, ?_, fun g given => ?_, fun frees past split => ?_⟩
  · have moved := conserved.balance
    rw [pool] at moved
    rw [heldBy, taken.pool, pool, List.tail_cons, List.cons_append]
    exact List.perm_middle.symm.trans moved
  · rw [heldBy, List.mem_cons, taken.freeList]
    rcases List.mem_cons.mp given with same | earlier
    · exact Or.inl (Or.inl (by simpa using same))
    · rcases conserved.kept g earlier with held | free
      · exact Or.inl (Or.inr held)
      · -- what leaves the free list is the frame returned
        cases list : alloc.freeList with
        | nil => simp [list] at free
        | cons top others =>
            have isTop : top = f := by
              rw [BootPtAlloc.pool, list, List.cons_append] at pool
              exact (List.cons.inj pool).1
            rw [list] at free
            rcases List.mem_cons.mp free with rfl | other
            · exact Or.inl (Or.inl isTop)
            · exact Or.inr other
  · cases frees with
    | nil => exact Nat.zero_le _
    | cons => simp at split

theorem Conserved.free (conserved : Conserved view pages history alloc)
    (held : f ∈ heldBy history) (room : alloc.freeList.length < maxFreeFrames) :
    Conserved view pages (.free f :: history) (alloc.freeFrame4k f) := by
  obtain ⟨pool, list⟩ := @freeFrame4k_room view _ f room
  refine ⟨conserved.inRange.freeFrame4k f, ?_, fun g given => ?_, fun frees past split => ?_⟩
  · rw [heldBy, pool]
    calc ((heldBy history).erase f ++ f :: alloc.pool view).Perm
          (f :: ((heldBy history).erase f ++ alloc.pool view)) := List.perm_middle
      _ |>.Perm (heldBy history ++ alloc.pool view) :=
        ((List.perm_cons_erase held).append_right _).symm
      _ |>.Perm pages := conserved.balance
  · rw [heldBy, list, List.mem_cons]
    by_cases same : g = f
    · exact Or.inr (Or.inl same)
    · have earlier := conserved.kept g (List.mem_of_ne_of_mem (by simp) given)
      rw [List.mem_erase_of_ne same]
      exact earlier.imp_right Or.inr
  · rw [pool, List.length_cons]
    cases frees with
    | nil => exact Nat.zero_le _
    | cons g frees =>
        rw [List.map_cons, List.cons_append] at split
        exact Nat.succ_le_succ (conserved.freed frees past (List.cons.inj split).2)

/-- A client that frees while there is room keeps all frames in sight. -/
theorem FrameRun.conserved {alloc₀ : BootPtAlloc} {m₀ m : Mem}
    (run : FrameRun view (fun alloc => alloc.freeList.length < maxFreeFrames) alloc₀ m₀
      history alloc m) (inRange : InRange view alloc₀) :
    Conserved view (alloc₀.pool view) history alloc := by
  induction run with
  | start =>
      refine ⟨inRange, List.Perm.refl _, by simp, fun frees past split => ?_⟩
      cases frees with
      | nil => exact Nat.zero_le _
      | cons => simp at split
  | @alloc _ _ _ _ _ answer _ done inductionHypothesis =>
      have taken := allocFrame4k_takesTop inductionHypothesis.inRange done
      cases answer with
      | none => exact inductionHypothesis.refuse taken
      | some => exact inductionHypothesis.give taken
  | free _ held room inductionHypothesis => exact inductionHypothesis.free held room

end

/-- If every frame is freed while the free list has room, no frame is ever lost. -/
theorem nothingLost_of_room {view : Nat → MemMapEntry} {boot : BootInfo}
    {alloc₀ alloc : BootPtAlloc} {m₀ m : Mem} {history : List FrameEvent}
    (created : BootPtAlloc.new boot = some alloc₀)
    (below : UsableUpTo cursorLimit view boot.mem.entryCount.toNat)
    (run : FrameRun view (fun alloc => alloc.freeList.length < maxFreeFrames) alloc₀ m₀
      history alloc m) :
    NothingLost view boot.mem.entryCount.toNat history alloc m := by
  obtain ⟨count, cursor, empty, all⟩ := @bootPtAlloc_new_cursor view _ _ created
  have pool : alloc₀.pool view = pagesFrom view boot.mem.entryCount.toNat 0 0 := by
    rw [BootPtAlloc.pool, empty, all, List.nil_append]
  have conserved := run.conserved ⟨count ▸ below, cursor ▸ Nat.zero_le _⟩
  refine ⟨conserved.kept, fun refused f whole => ?_, fun frees past split answer given => ?_⟩
  · rcases done : alloc.allocFrame4k view m with ⟨answer, after, m'⟩
    rw [done] at refused
    obtain rfl : answer = none := refused
    have taken := allocFrame4k_takesTop conserved.inRange done
    have empty : alloc.pool view = [] := List.head?_eq_none_iff.mp taken.answer.symm
    have balance := conserved.balance
    rw [empty, List.append_nil, pool] at balance
    exact balance.mem_iff.mpr (mem_pagesFrom_of_wholePage whole)
  · rw [answers_eq conserved.inRange (conserved.freed frees past split)] at given
    obtain ⟨f, -, rfl⟩ := List.mem_map.mp given
    rfl

/-! ### Taking many frames and giving them back -/

section

variable {view : Nat → MemMapEntry} {mayFree : BootPtAlloc → Prop} {alloc₀ : BootPtAlloc}
  {m₀ : Mem}

/-- One more allocation. -/
def allocNext (view : Nat → MemMapEntry) :
    List FrameEvent × BootPtAlloc × Mem → List FrameEvent × BootPtAlloc × Mem
  | (history, alloc, m) =>
      let (answer, after, m') := alloc.allocFrame4k view m
      (.alloc answer :: history, after, m')

/-- One frame given back. -/
def freeNext : List FrameEvent × BootPtAlloc × Mem → PhysAddr →
    List FrameEvent × BootPtAlloc × Mem
  | (history, alloc, m), f => (.free f :: history, alloc.freeFrame4k f, m)

theorem FrameRun.allocs (at₀ : List FrameEvent × BootPtAlloc × Mem)
    {last : List FrameEvent × BootPtAlloc × Mem} {calls : Nat}
    (run : FrameRun view mayFree alloc₀ m₀ at₀.1 at₀.2.1 at₀.2.2)
    (reached : last = (allocNext view)^[calls] at₀) :
    FrameRun view mayFree alloc₀ m₀ last.1 last.2.1 last.2.2 := by
  subst reached
  induction calls generalizing at₀ with
  | zero => exact run
  | succ calls inductionHypothesis => exact inductionHypothesis _ (run.alloc rfl)

theorem FrameRun.freeAll {at₀ last : List FrameEvent × BootPtAlloc × Mem}
    {frees : List PhysAddr} (held : heldBy at₀.1 = frees)
    (run : FrameRun view (fun _ => True) alloc₀ m₀ at₀.1 at₀.2.1 at₀.2.2)
    (reached : last = frees.foldl freeNext at₀) :
    FrameRun view (fun _ => True) alloc₀ m₀ last.1 last.2.1 last.2.2 ∧ heldBy last.1 = [] := by
  subst reached
  induction frees generalizing at₀ with
  | nil => exact ⟨run, held⟩
  | cons f frees inductionHypothesis =>
      have first : f ∈ heldBy at₀.1 := held ▸ List.mem_cons_self
      refine @inductionHypothesis (freeNext at₀ f) ?_ (run.free first trivial)
      change (heldBy at₀.1).erase f = frees
      rw [held, List.erase_cons_head]

end

/-- 129 usable pages at 2 MiB. -/
def crowdedEntry : MemMapEntry :=
  { base := 0x200000, len := 0x81000, memType := .usable, flags := 0 }

def crowdedView : Nat → MemMapEntry := fun _ => crowdedEntry

/-- The client after its first page, at all 129, and after giving these back. -/
def crowdedFirst : List FrameEvent × BootPtAlloc × Mem :=
  (allocNext crowdedView)^[1] ([], tinyAlloc, fun _ => 0)

def crowdedTaken : List FrameEvent × BootPtAlloc × Mem :=
  (allocNext crowdedView)^[129] ([], tinyAlloc, fun _ => 0)

def crowdedReturned : List FrameEvent × BootPtAlloc × Mem :=
  (heldBy crowdedTaken.1).foldl freeNext crowdedTaken

/-- A page taken from this map and given back at once is not lost. -/
theorem nothingLost_crowdedFirst :
    let last := freeNext crowdedFirst 0x200000
    NothingLost crowdedView 1 last.1 last.2.1 last.2.2 := by
  have taken : FrameRun crowdedView (fun alloc => alloc.freeList.length < maxFreeFrames)
      tinyAlloc (fun _ => 0) crowdedFirst.1 crowdedFirst.2.1 crowdedFirst.2.2 :=
    FrameRun.allocs ([], tinyAlloc, fun _ => 0) .start rfl
  have below : crowdedEntry.base.toNat + crowdedEntry.len.toNat ≤ cursorLimit := by decide
  have created : BootPtAlloc.new tinyBoot = some tinyAlloc := (Option.some_get (by decide)).symm
  exact nothingLost_of_room created (fun _ _ _ => below)
    (taken.free (by decide +kernel) (by decide +kernel))

/-- The last frame returned found the list full.  It is neither held nor free,
and only 128 of the next 129 allocations succeed. -/
theorem frame_129_lost :
    ∃ history alloc m,
      FrameRun crowdedView (fun _ => True) tinyAlloc (fun _ => 0) history alloc m ∧
        heldBy history = [] ∧ .alloc (some 0x200000) ∈ history ∧
        0x200000 ∉ alloc.freeList ∧
        (alloc.answers crowdedView 129 m).getLast? = some none ∧
        ¬ NothingLost crowdedView 1 history alloc m := by
  have taken : FrameRun crowdedView (fun _ => True) tinyAlloc (fun _ => 0)
      crowdedTaken.1 crowdedTaken.2.1 crowdedTaken.2.2 :=
    FrameRun.allocs ([], tinyAlloc, fun _ => 0) .start rfl
  obtain ⟨run, nothing⟩ := taken.freeAll rfl (show crowdedReturned = _ from rfl)
  have given : FrameEvent.alloc (some 0x200000) ∈ crowdedReturned.1 := by decide +kernel
  have unlisted : 0x200000 ∉ crowdedReturned.2.1.freeList := by decide +kernel
  refine ⟨crowdedReturned.1, crowdedReturned.2.1, crowdedReturned.2.2, run, nothing, given,
    unlisted, by decide +kernel, fun lost => ?_⟩
  rcases lost.kept _ given with held | free
  · rw [nothing] at held
    cases held
  · exact unlisted free

end RincOs
