/-
Module: RincOs.Proofs.VmPrograms
Purpose: The programs of the VM service, each taken alone: without interruption
  it does what the backend function does.
Trusted boundary: none
Main exports:
  VmM.exec, Shared.view, Shared.put, Shared.lift, program_run
-/
import RincOs.Kernel.VmService
import RincOs.Proofs.KernelRoot

namespace RincOs

open Interleaving RadixForest LawfulFrameAlloc

variable {C A α β : Type}

/-! ### Uninterrupted programs -/

namespace VmM

def exec (x : VmM C A α) (s : Shared C A) : Except MapError α × Shared C A :=
  (ExceptT.run x).run s

@[simp] theorem exec_pure (a : α) (s : Shared C A) :
    (pure a : VmM C A α).exec s = (.ok a, s) := rfl

@[simp] theorem exec_throw (e : MapError) (s : Shared C A) :
    (throw e : VmM C A α).exec s = (.error e, s) := rfl

theorem exec_bind (x : VmM C A α) (f : α → VmM C A β) (s : Shared C A) :
    (x >>= f).exec s =
      match x.exec s with
      | (.ok a, s') => (f a).exec s'
      | (.error e, s') => (.error e, s') := by
  have unfolded : (x >>= f).exec s =
      (ExceptT.bindCont f (x.exec s).1).run (x.exec s).2 :=
    Prog.run_bind (ExceptT.run x) (ExceptT.bindCont f) s
  rw [unfolded]
  obtain ⟨_ | a, after⟩ := x.exec s <;> rfl

@[simp] theorem exec_access (p : Prog (Shared C A) α) (s : Shared C A) :
    (Vm.access p).exec s = (.ok (p.run s).1, (p.run s).2) :=
  Prog.run_bind p _ s

@[simp] theorem exec_access_bind (p : Prog (Shared C A) α) (f : α → VmM C A β)
    (s : Shared C A) :
    (Vm.access p >>= f).exec s = (f (p.run s).1).exec (p.run s).2 := by
  rw [exec_bind, exec_access]

@[simp] theorem exec_throw_bind (e : MapError) (f : α → VmM C A β) (s : Shared C A) :
    ((throw e : VmM C A α) >>= f).exec s = (.error e, s) := by
  rw [exec_bind, exec_throw]

@[simp] theorem exec_ite (c : Prop) [Decidable c] (x y : VmM C A α) (s : Shared C A) :
    (if c then x else y).exec s = if c then x.exec s else y.exec s :=
  apply_ite (fun z => exec z s) c x y

end VmM

/-! ### The machine as one CPU sees it -/

section

variable [DecidableEq C]

/-- The machine with the TLB maintenance of CPU `c` as its list. -/
def Shared.view (c : C) (s : Shared C A) : Sys A := { s.sys with tlbOps := s.tlb c }

/-- The machine after CPU `c` has brought its view to `t`. -/
def Shared.put (c : C) (s : Shared C A) (t : Sys A) : Shared C A :=
  { sys := { t with tlbOps := s.sys.tlbOps }
    tlb := Function.update s.tlb c t.tlbOps }

@[simp] theorem Shared.view_put (c : C) (s : Shared C A) (t : Sys A) :
    (s.put c t).view c = t := by
  simp [Shared.view, Shared.put]

@[simp] theorem Shared.put_put (c : C) (s : Shared C A) (t u : Sys A) :
    (s.put c t).put c u = s.put c u := by
  simp [Shared.put]

@[simp] theorem Shared.put_view (c : C) (s : Shared C A) : s.put c (s.view c) = s := by
  simp [Shared.put, Shared.view]

/-- An outcome of the backend on the view of CPU `c`. -/
def Shared.lift (c : C) (s : Shared C A) (outcome : α × Sys A) : α × Shared C A :=
  (outcome.1, s.put c outcome.2)

variable (c : C) (s : Shared C A) (t : Sys A)

theorem Vm.flushTlbPage_run (v : VirtAddr) :
    (Vm.flushTlbPage c v).run (s.put c t) =
      (⟨⟩, s.put c { t with tlbOps := t.tlbOps ++ [.invlpg v] }) := by
  simp [Vm.flushTlbPage, Shared.put]

theorem Vm.changeMem_run (change : Mem → Mem) :
    (Vm.changeMem change).run (s.put c t) =
      (⟨⟩, s.put c { t with mem := change t.mem }) := rfl

theorem Vm.readWord_run (table : PhysAddr) (i : Fin entryCount) :
    (Vm.readWord table i).run (s.put c t) = (readEntry t.mem table i, s.put c t) := rfl

theorem Vm.loadRoot_run (aspace : AddressSpace) :
    (Vm.loadRoot aspace).run (s.put c t) = ((t.asX86 aspace).pml4Phys, s.put c t) := by
  cases aspace <;> rfl

theorem Vm.loadNxe_run :
    (Vm.loadNxe).run (s.put c t) = (t.nxeEnabled, s.put c t) := rfl

theorem Vm.walkToPt_run (root : PhysAddr) (v : VirtAddr) :
    (Vm.walkToPt root v).run (s.put c t) = (RincOs.walkToPt t.mem root v, s.put c t) := by
  rw [Vm.walkToPt, RincOs.walkToPt, Prog.run_bind, Vm.readWord_run, Prog.run_ite]
  dsimp only
  split
  · rfl
  rw [Prog.run_bind, Vm.readWord_run, Prog.run_ite]
  dsimp only
  split
  · rfl
  rw [Prog.run_bind, Vm.readWord_run, Prog.run_ite]
  dsimp only
  split <;> rfl

theorem Vm.findLeaf_exec (aspace : AddressSpace) (v : VirtAddr) :
    (Vm.findLeaf aspace v).exec (s.put c t) =
      if !aligned4k v then (.error .unaligned, s.put c t)
      else if !isCanonical v then (.error .invalidArgs, s.put c t)
      else
        match RincOs.walkToPt t.mem (t.asX86 aspace).pml4Phys v with
        | none => (.error .notMapped, s.put c t)
        | some pt =>
            if !present (readEntry t.mem pt (ptIndex v)) then (.error .notMapped, s.put c t)
            else (.ok pt, s.put c t) := by
  simp only [Vm.findLeaf, VmM.exec_ite, VmM.exec_throw_bind, VmM.exec_access_bind,
    Vm.loadRoot_run, Vm.walkToPt_run]
  split
  · rfl
  split
  · rfl
  cases RincOs.walkToPt t.mem (t.asX86 aspace).pml4Phys v with
  | none => rfl
  | some pt =>
      dsimp only
      rw [VmM.exec_access_bind, Vm.readWord_run, VmM.exec_ite]
      rfl

/-- `unmap_4k` and `protect_4k` differ in what they write once the leaf is found. -/
theorem Vm.replace_exec (aspace : AddressSpace) (v : VirtAddr) (update : Bool → Word → Word)
    (body : PhysAddr → VmM C A PUnit)
    (writes : ∀ pt, (body pt).exec (s.put c t) =
      (.ok ⟨⟩, s.put c
        { t with
          mem := writeEntry t.mem pt (ptIndex v)
            (update t.nxeEnabled (readEntry t.mem pt (ptIndex v)))
          tlbOps := t.tlbOps ++ [.invlpg v] })) :
    (Vm.findLeaf aspace v >>= body).exec (s.put c t) =
      s.lift c ((replaceLeaf aspace v update).exec t) := by
  rw [VmM.exec_bind, Vm.findLeaf_exec, replaceLeaf_exec]
  by_cases unaligned : (!aligned4k v) = true
  · rw [if_pos unaligned, if_pos unaligned]
    rfl
  rw [if_neg unaligned, if_neg unaligned]
  by_cases invalid : (!isCanonical v) = true
  · rw [if_pos invalid, if_pos invalid]
    rfl
  rw [if_neg invalid, if_neg invalid]
  cases RincOs.walkToPt t.mem (t.asX86 aspace).pml4Phys v with
  | none => rfl
  | some pt =>
      dsimp only
      by_cases absent : (!present (readEntry t.mem pt (ptIndex v))) = true
      · rw [if_pos absent, if_pos absent]
        rfl
      · rw [if_neg absent, if_neg absent]
        exact writes pt

theorem Vm.unmap4k_exec (aspace : AddressSpace) (v : VirtAddr) :
    (Vm.unmap4k c aspace v).exec (s.put c t) =
      s.lift c ((RincOs.unmap4k aspace v).exec t) := by
  apply Vm.replace_exec
  intro pt
  rw [VmM.exec_access_bind, Vm.writeWord, Vm.changeMem_run, VmM.exec_access,
    Vm.flushTlbPage_run]

theorem Vm.protect4k_exec (aspace : AddressSpace) (v : VirtAddr) (flags : MapFlags) :
    (Vm.protect4k c aspace v flags).exec (s.put c t) =
      s.lift c ((RincOs.protect4k aspace v flags).exec t) := by
  apply Vm.replace_exec
  intro pt
  rw [VmM.exec_access_bind, Vm.readWord_run, VmM.exec_access_bind, Vm.loadNxe_run,
    VmM.exec_access_bind, Vm.writeWord, Vm.changeMem_run, VmM.exec_access,
    Vm.flushTlbPage_run]

theorem Vm.translate_run (aspace : AddressSpace) (v : VirtAddr) :
    (Vm.translate aspace v).run (s.put c t) =
      (RincOs.translate t.toMachine aspace v, s.put c t) := by
  simp only [Vm.translate, RincOs.translate, Prog.run_ite, Prog.run_bind, Prog.run_pure,
    Vm.loadRoot_run, Vm.walkToPt_run]
  split
  · rfl
  cases RincOs.walkToPt t.mem (t.asX86 aspace).pml4Phys v with
  | none => rfl
  | some pt =>
      dsimp only
      rw [Prog.run_bind, Vm.readWord_run, Prog.run_ite]
      dsimp only
      split <;> rfl

theorem Vm.initKernel_exec (cpu : Cpu) :
    (Vm.initKernel cpu).exec (s.put c t) = s.lift c ((RincOs.initKernel cpu).exec t) := by
  have handle : (Prog.atomic fun s : Shared C A => (s.sys.kasHandle, s)).run (s.put c t) =
      (t.kasHandle, s.put c t) := rfl
  rw [Vm.initKernel, VmM.exec_access_bind, handle, RincOs.initKernel, MmuM.exec_get_bind]
  cases t.kasHandle with
  | some h => rfl
  | none =>
      simp only [VmM.exec_ite, MmuM.exec_ite]
      split <;> rfl

theorem Vm.takeSlot_exec (pml4 : PhysAddr) :
    (do
      match ← Vm.access (Vm.takeSlot pml4) with
      | some i => return .slot i
      | none => throw .outOfMemory : VmM C A AddressSpace).exec (s.put c t) =
      s.lift c ((allocSlot pml4).exec t) := by
  have taken : (Vm.takeSlot pml4).run (s.put c t) =
      match (List.finRange maxAddressSpaces).find? fun i => !(t.asSlots i).used with
      | some i =>
          (some i, s.put c
            { t with asSlots := Function.update t.asSlots i (newSlot i pml4) })
      | none => (none, s.put c t) := by
    rw [Vm.takeSlot, Prog.run_atomic]
    change (match List.find? (fun i => !(t.asSlots i).used) _ with | some i => _ | none => _) = _
    split <;> rfl
  rw [VmM.exec_access_bind, taken, allocSlot, MmuM.exec_get_bind]
  cases (List.finRange maxAddressSpaces).find? fun i => !(t.asSlots i).used <;> rfl

section

variable [PageTableFrameAlloc A]

theorem Vm.requestFrame_exec :
    (Vm.requestFrame).exec (s.put c t) = s.lift c ((RincOs.requestFrame).exec t) := by
  have taken : (Vm.takeFrame).run (s.put c t) =
      ((allocFrame4k t.ptAlloc t.mem).1,
        s.put c { t with
          ptAlloc := (allocFrame4k t.ptAlloc t.mem).2.1
          mem := (allocFrame4k t.ptAlloc t.mem).2.2 }) := rfl
  rw [Vm.requestFrame, VmM.exec_access_bind, taken, RincOs.requestFrame_exec]
  rcases allocFrame4k t.ptAlloc t.mem with ⟨_ | frame, al, m⟩ <;> rfl

theorem Vm.ensureTable_exec (parent : PhysAddr) (idx : Fin entryCount) (user : Bool) :
    (Vm.ensureTable parent idx user).exec (s.put c t) =
      s.lift c ((RincOs.ensureTable parent idx user).exec t) := by
  rw [Vm.ensureTable, RincOs.ensureTable, VmM.exec_access_bind, MmuM.exec_get_bind,
    Vm.readWord_run, VmM.exec_ite, MmuM.exec_ite]
  dsimp only
  split
  · rfl
  rw [VmM.exec_bind, Vm.requestFrame_exec, MmuM.exec_bind]
  rcases (RincOs.requestFrame).exec t with ⟨_ | frame, t'⟩ <;> rfl

theorem Vm.map4k_exec (aspace : AddressSpace) (v : VirtAddr) (p : PhysAddr)
    (flags : MapFlags) :
    (Vm.map4k c aspace v p flags).exec (s.put c t) =
      s.lift c ((RincOs.map4k aspace v p flags).exec t) := by
  simp only [Vm.map4k, RincOs.map4k, VmM.exec_ite, MmuM.exec_ite, VmM.exec_throw_bind,
    MmuM.exec_throw_bind, VmM.exec_access_bind, MmuM.exec_get_bind, Vm.loadRoot_run]
  split
  · rfl
  split
  · rfl
  -- follow the three tables; an error at any of them ends both sides
  rw [VmM.exec_bind, Vm.ensureTable_exec, MmuM.exec_bind]
  rcases (RincOs.ensureTable _ (pml4Index v) _).exec t with ⟨_ | pdpt, t₁⟩
  · rfl
  dsimp only [Shared.lift]
  rw [VmM.exec_bind, Vm.ensureTable_exec, MmuM.exec_bind]
  rcases (RincOs.ensureTable pdpt _ _).exec t₁ with ⟨_ | pd, t₂⟩
  · rfl
  dsimp only [Shared.lift]
  rw [VmM.exec_bind, Vm.ensureTable_exec, MmuM.exec_bind]
  rcases (RincOs.ensureTable pd _ _).exec t₂ with ⟨_ | pt, t₃⟩
  · rfl
  dsimp only [Shared.lift]
  rw [VmM.exec_access_bind, Vm.readWord_run, VmM.exec_ite, MmuM.exec_get_bind, MmuM.exec_ite]
  dsimp only
  split
  · rfl
  · rw [VmM.exec_access_bind, Vm.loadNxe_run, VmM.exec_access_bind, Vm.writeWord,
      Vm.changeMem_run, VmM.exec_access, Vm.flushTlbPage_run]
    rfl

theorem Vm.addressSpaceNew_exec (cpu : Cpu) :
    (Vm.addressSpaceNew cpu).exec (s.put c t) =
      s.lift c ((RincOs.addressSpaceNew cpu).exec t) := by
  have kernel : ∀ t : Sys A,
      (Prog.atomic fun s : Shared C A => (s.sys.kas, s)).run (s.put c t) =
        (t.kas, s.put c t) := fun _ => rfl
  rw [Vm.addressSpaceNew, RincOs.addressSpaceNew, VmM.exec_bind, Vm.initKernel_exec,
    MmuM.exec_bind]
  rcases (RincOs.initKernel cpu).exec t with ⟨_ | h, t₁⟩
  · rfl
  dsimp only [Shared.lift]
  rw [VmM.exec_access_bind, kernel, MmuM.exec_get_bind]
  dsimp only
  cases t₁.kas with
  | none => rfl
  | some kernel =>
      dsimp only
      rw [VmM.exec_bind, Vm.requestFrame_exec, newFromKernel, MmuM.exec_bind]
      rcases (RincOs.requestFrame).exec t₁ with ⟨_ | pml4, t₂⟩
      · rfl
      dsimp only [Shared.lift]
      rw [VmM.exec_access_bind, Vm.changeMem_run, VmM.exec_access_bind, Vm.changeMem_run]
      exact Vm.takeSlot_exec c s _ pml4

/-- A loop whose body frees some frames frees those of all tables it finds. -/
theorem Vm.forTables_run {m : Mem} {body : PhysAddr → Prog (Shared C A) PUnit}
    {frames : PhysAddr → List PhysAddr}
    (frees : ∀ child (t : Sys A), t.mem = m → (body child).run (s.put c t) =
      (⟨⟩, s.put c { t with ptAlloc := (frames child).foldl freeFrame4k t.ptAlloc }))
    (table : PhysAddr) (indices : List (Fin entryCount)) (mem : t.mem = m) :
    (Vm.forTables table body indices).run (s.put c t) =
      (⟨⟩, s.put c
        { t with
          ptAlloc := (freedBelow m table indices frames).foldl freeFrame4k t.ptAlloc }) := by
  induction indices generalizing t with
  | nil => rfl
  | cons i rest inductionHypothesis =>
      rw [Vm.forTables, Prog.run_bind, Vm.readWord_run, mem]
      dsimp only
      have split : freedBelow m table (i :: rest) frames =
          (if !present (readEntry m table i) then []
            else if readEntry m table i &&& ptePs != 0 then []
            else frames (readEntry m table i &&& addrMask)) ++
          freedBelow m table rest frames := rfl
      rw [split, List.foldl_append, Prog.run_ite]
      by_cases absent : (!present (readEntry m table i)) = true
      · rw [if_pos absent, if_pos absent]
        exact inductionHypothesis t mem
      rw [if_neg absent, if_neg absent, Prog.run_ite]
      by_cases large : (readEntry m table i &&& ptePs != 0) = true
      · rw [if_pos large, if_pos large]
        exact inductionHypothesis t mem
      · rw [if_neg large, if_neg large, Prog.run_bind, frees _ t mem]
        exact inductionHypothesis _ mem

/-- The body of a loop that frees what is below a table and then the table. -/
theorem Vm.forTables_give_run {m : Mem} {body : PhysAddr → Prog (Shared C A) PUnit}
    {frames : PhysAddr → List PhysAddr}
    (frees : ∀ child (t : Sys A), t.mem = m → (body child).run (s.put c t) =
      (⟨⟩, s.put c { t with ptAlloc := (frames child).foldl freeFrame4k t.ptAlloc }))
    (table : PhysAddr) (indices : List (Fin entryCount)) (mem : t.mem = m) :
    (do
      Vm.forTables table body indices
      Vm.giveFrame table : Prog (Shared C A) PUnit).run (s.put c t) =
      (⟨⟩, s.put c
        { t with
          ptAlloc :=
            (freedBelow m table indices frames ++ [table]).foldl freeFrame4k t.ptAlloc }) := by
  rw [Prog.run_bind, Vm.forTables_run c s t frees table indices mem, List.foldl_append]
  rfl

omit [PageTableFrameAlloc A] in
theorem Vm.freeSlot_run (aspace : AddressSpace) :
    (Prog.atomic fun s : Shared C A =>
      ((⟨⟩ : PUnit),
        { s with
          sys := { s.sys with toMachine := freeSlot s.sys.toMachine aspace } })).run
        (s.put c t) =
      (⟨⟩, s.put c { t with toMachine := freeSlot t.toMachine aspace }) := by
  have released : freeSlot { t.toMachine with tlbOps := s.sys.tlbOps } aspace =
      { freeSlot t.toMachine aspace with tlbOps := s.sys.tlbOps } ∧
        (freeSlot t.toMachine aspace).tlbOps = t.tlbOps := by
    rw [freeSlot, freeSlot]
    dsimp only
    split <;> exact ⟨rfl, rfl⟩
  rw [Prog.run_atomic, Shared.put, Shared.put]
  dsimp only
  rw [released.1, released.2]

theorem Vm.addressSpaceDestroy_run (aspace : AddressSpace) :
    (Vm.addressSpaceDestroy aspace).run (s.put c t) =
      (⟨⟩, s.put c (RincOs.addressSpaceDestroy aspace t)) := by
  have handle : (Prog.atomic fun s : Shared C A => (s.sys.kasHandle, s)).run (s.put c t) =
      (t.kasHandle, s.put c t) := rfl
  rw [Vm.addressSpaceDestroy, Prog.run_bind, handle, Prog.run_ite, RincOs.addressSpaceDestroy]
  dsimp only
  split
  · rfl
  rw [Prog.run_bind, Vm.loadRoot_run]
  dsimp only
  -- each loop frees what its body frees, from the innermost outwards
  have page : ∀ (pt : PhysAddr) (u : Sys A), u.mem = t.mem →
      (Vm.giveFrame pt).run (s.put c u) =
        (⟨⟩, s.put c { u with ptAlloc := [pt].foldl freeFrame4k u.ptAlloc }) :=
    fun _ _ _ => rfl
  have directory := fun (pd : PhysAddr) (u : Sys A) (mem : u.mem = t.mem) =>
    Vm.forTables_give_run c s u page pd (List.finRange entryCount) mem
  have pointers := fun (pdpt : PhysAddr) (u : Sys A) (mem : u.mem = t.mem) =>
    Vm.forTables_give_run c s u directory pdpt (List.finRange entryCount) mem
  have root : ∀ u : Sys A, (Vm.giveFrame (t.asX86 aspace).pml4Phys).run (s.put c u) =
      (⟨⟩, s.put c
        { u with ptAlloc := freeFrame4k u.ptAlloc (t.asX86 aspace).pml4Phys }) := fun _ => rfl
  rw [Prog.run_bind, Vm.forTables_run c s t pointers _ _ rfl, Prog.run_bind, root,
    Vm.freeSlot_run, destroyedFrames, List.foldl_append, List.foldl_cons, List.foldl_nil]

/-- Uninterrupted, a call is the backend function on the view of its CPU. -/
theorem program_run (call : VmCall) :
    (call.program c).run s = s.lift c (call.exec (s.view c)) := by
  conv_lhs => rw [← s.put_view c]
  generalize s.view c = t
  cases call with
  | newAddressSpace cpu =>
      have done := Vm.addressSpaceNew_exec c s t cpu
      rw [VmM.exec] at done
      rw [VmCall.program, Prog.run_bind, done]
      rfl
  | destroyAddressSpace aspace =>
      rw [VmCall.program, Prog.run_bind, Vm.addressSpaceDestroy_run]
      rfl
  | map4k aspace v p flags =>
      have done := Vm.map4k_exec c s t aspace v p flags
      rw [VmM.exec] at done
      rw [VmCall.program, Prog.run_bind, done]
      rfl
  | unmap4k aspace v =>
      have done := Vm.unmap4k_exec c s t aspace v
      rw [VmM.exec] at done
      rw [VmCall.program, Prog.run_bind, done]
      rfl
  | protect4k aspace v flags =>
      have done := Vm.protect4k_exec c s t aspace v flags
      rw [VmM.exec] at done
      rw [VmCall.program, Prog.run_bind, done]
      rfl
  | translate aspace v =>
      rw [VmCall.program, Prog.run_bind, Vm.translate_run]
      rfl

end

end

end RincOs
