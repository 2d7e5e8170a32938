/-
Module: RincOs.Proofs.SegmentLoads
Purpose: Which sequences of calls of `gdt.rs` go through.  The statics and the
  registers follow a machine of a few flags, which also says when a segment load or
  `ltr` faults.
Trusted boundary: none
Main exports:
  SegmentsReady, GdtPhase, GdtPhase.exec, GdtPhase.run, Segments.Follows, segment_loads,
  initCore_spec
-/
import RincOs.Kernel.Boot
import RincOs.Library.PartialCalls
import RincOs.Proofs.Descriptors

namespace RincOs

open PartialCalls

/-! ### How far the tables are -/

/-- The kernel runs on its own segments and has its task register loaded. -/
structure SegmentsReady (tssAddr : Word) (regs : SegmentRegs) : Prop where
  gdtr : regs.gdtr = some (BitVec.ofNat 16 (gdtBytes - 1))
  cs : regs.cs = kernelCs
  ss : regs.ss = kernelDs
  data : regs.data = kernelDs
  tr : regs.tr = tssSel
  code : ∃ d, regs.code = some d ∧ d.IsKernelCode
  stack : ∃ d, regs.stack = some d ∧ d.IsKernelData
  task : ∃ d, regs.task = some d ∧ d.base = tssAddr.toNat ∧ d.limit + 1 = tss64Size

/-- What the slot of the TSS in `FULL` holds. -/
inductive TaskSlot where
  | blank
  | available
  /-- The task register has been loaded from it. -/
  | busy
deriving DecidableEq

/-- The calls so far, as far as later ones depend on them. -/
structure GdtPhase where
  /-- `GDT` has code and data. -/
  entries : Bool
  /-- `TSS_DESC` is written. -/
  desc : Bool
  /-- `FULL` has code and data. -/
  full : Bool
  slot : TaskSlot
  /-- The processor uses `FULL`. -/
  inUse : Bool
  /-- CS and the data segments are loaded from `FULL`. -/
  reloaded : Bool
  /-- TR is. -/
  tasked : Bool
deriving DecidableEq

namespace GdtPhase

def linked : GdtPhase where
  entries := false
  desc := false
  full := false
  slot := .blank
  inUse := false
  reloaded := false
  tasked := false

def writeEntries (p : GdtPhase) : GdtPhase := { p with entries := true }

/-- A TSS that is not at a canonical address gets no descriptor. -/
def writeDesc (canonical : Bool) (p : GdtPhase) : GdtPhase := { p with desc := p.desc || canonical }

def writeFull (p : GdtPhase) : GdtPhase :=
  { p with full := p.entries, slot := if p.desc then .available else .blank }

def use (p : GdtPhase) : GdtPhase := { p with inUse := true }

def reload (p : GdtPhase) : Option GdtPhase :=
  if p.inUse && p.full then some { p with reloaded := true } else none

def loadTask (p : GdtPhase) : Option GdtPhase :=
  if p.inUse && p.slot == .available then some { p with slot := .busy, tasked := true } else none

def exec (canonical : Bool) (p : GdtPhase) : GdtCall → Option GdtPhase
  | .buildGdtTss _ => some (p.writeEntries.writeDesc canonical).writeFull
  | .initTssOnly _ => some p
  | .buildGdtEntriesOnly => some p.writeEntries
  | .buildTssDesc => some (p.writeDesc canonical)
  | .buildGdtEntries => some (p.writeEntries.writeDesc canonical)
  | .buildFullTable => some p.writeFull
  | .loadGdt => some p.use
  | .reloadSegments => p.reload
  | .loadTss => p.loadTask
  | .initGdtAndTss _ => (p.writeEntries.writeDesc canonical).writeFull.use.reload.bind loadTask

def run (canonical : Bool) (calls : List GdtCall) (p : GdtPhase) : Option GdtPhase :=
  calls.foldlM (exec canonical) p

/-- `init_gdt_and_tss` goes through from everywhere. -/
theorem exec_initGdtAndTss (p : GdtPhase) (rsp0Top : Word) :
    p.exec true (.initGdtAndTss rsp0Top) = some
      { entries := true, desc := true, full := true, slot := .busy, inUse := true
        reloaded := true, tasked := true } := by
  simp [exec, writeEntries, writeDesc, writeFull, use, reload, loadTask]

end GdtPhase

/-! ### The tables behind the flags -/

/-- The descriptor `build_tss_desc` writes. -/
def tssDescAt (tssAddr : Word) : TssDesc := makeTssDesc tssAddr (BitVec.ofNat 32 tss64Size)

/-- A word that is blank until it is written. -/
def writtenIf (written : Bool) (w : Word) : Word := if written then w else 0

def TaskSlot.desc (tssAddr : Word) : TaskSlot → TssDesc
  | .blank => { lo := 0, hi := 0 }
  | .available => tssDescAt tssAddr
  | .busy => { tssDescAt tssAddr with lo := (tssDescAt tssAddr).lo ||| 2 <<< 40 }

theorem decode_tssDescAt (tssAddr : Word) :
    (tssDescAt tssAddr).decode =
      { base := tssAddr.toNat, limit := tss64Size - 1, type := availableTss, segment := 0
        dpl := 0, present := 1, available := 0, granularity := 0, reservedLo := 0
        reservedHi := 0 } :=
  decode_makeTssDesc (by decide) (by decide) tssAddr

/-- Bit 1 of the type tells busy from available. -/
theorem type_busy (tssAddr : Word) :
    (TaskSlot.desc tssAddr .busy).decode.type ≠ availableTss := by
  intro same
  have bit : ((TaskSlot.desc tssAddr .busy).lo.toNat / 2 ^ 40 % 2 ^ 4).testBit 1 = true := by
    have set : (TaskSlot.desc tssAddr .busy).lo.getLsbD 41 = true := by
      simp [TaskSlot.desc]
    rw [Nat.testBit_mod_two_pow, Nat.testBit_div_two_pow]
    exact set
  have type : (TaskSlot.desc tssAddr .busy).lo.toNat / 2 ^ 40 % 2 ^ 4 = availableTss := same
  rw [type] at bit
  exact absurd bit (by decide)

namespace Segments

/-- The statics and registers are as the flags say. -/
structure Follows (tssAddr : Word) (p : GdtPhase) (s : Segments) : Prop where
  code : s.gdt 1 = writtenIf p.entries gdtCode64
  data : s.gdt 2 = writtenIf p.entries gdtData
  desc : s.tssDesc = (if p.desc then TaskSlot.available else .blank).desc tssAddr
  fullCode : s.full.gdt 1 = writtenIf p.full gdtCode64
  fullData : s.full.gdt 2 = writtenIf p.full gdtData
  slot : s.full.tss = p.slot.desc tssAddr
  gdtr : s.regs.gdtr = if p.inUse then some (BitVec.ofNat 16 (gdtBytes - 1)) else none
  written : p.desc = true ∨ p.slot ≠ .blank → isCanonical tssAddr = true
  reloaded : p.reloaded = true → s.regs.cs = kernelCs ∧ s.regs.ss = kernelDs ∧
    s.regs.data = kernelDs ∧ s.regs.code = some (.decode gdtCode64) ∧
    s.regs.stack = some (.decode gdtData)
  tasked : p.tasked = true → s.regs.tr = tssSel ∧ s.regs.task = some (tssDescAt tssAddr).decode

variable {tssAddr : Word} {p : GdtPhase} {s : Segments}

theorem follows_linked (tssAddr : Word) (regs : SegmentRegs) :
    Follows tssAddr .linked (.linked regs) where
  code := rfl
  data := rfl
  desc := rfl
  fullCode := rfl
  fullData := rfl
  slot := rfl
  gdtr := rfl
  written := by simp [GdtPhase.linked]
  reloaded := by simp [GdtPhase.linked]
  tasked := by simp [GdtPhase.linked]

namespace Follows

theorem initTssOnly (follows : Follows tssAddr p s) (dfIstStack rsp0Top : Word) :
    Follows tssAddr p (s.initTssOnly dfIstStack rsp0Top) :=
  { follows with }

theorem buildGdtEntriesOnly (follows : Follows tssAddr p s) :
    Follows tssAddr p.writeEntries s.buildGdtEntriesOnly :=
  { follows with code := rfl, data := rfl }

theorem buildTssDesc (follows : Follows tssAddr p s) :
    Follows tssAddr (p.writeDesc (isCanonical tssAddr)) (s.buildTssDesc tssAddr) := by
  cases canonical : isCanonical tssAddr with
  | true =>
      refine { follows with desc := ?_, written := fun _ => canonical }
      simp [Segments.buildTssDesc, RincOs.buildTssDesc, canonical, GdtPhase.writeDesc,
        TaskSlot.desc, tssDescAt]
  | false =>
      refine { follows with desc := ?_, written := ?_ }
      · simpa [Segments.buildTssDesc, RincOs.buildTssDesc, canonical, GdtPhase.writeDesc]
          using follows.desc
      · simpa [GdtPhase.writeDesc, canonical] using follows.written

theorem buildFullTable (follows : Follows tssAddr p s) :
    Follows tssAddr p.writeFull s.buildFullTable := by
  refine { follows with
    fullCode := follows.code, fullData := follows.data, slot := follows.desc, written := ?_ }
  intro written
  apply follows.written
  cases desc : p.desc with
  | true => exact .inl rfl
  | false => simp [GdtPhase.writeFull, desc] at written

theorem loadGdt (follows : Follows tssAddr p s) : Follows tssAddr p.use s.loadGdt :=
  { follows with gdtr := rfl }

/-! ### Loads -/

theorem fetch (follows : Follows tssAddr p s) (sel : BitVec 16) (global : sel &&& 0b100 = 0)
    (inside : (sel ||| 0b111) ≤ BitVec.ofNat 16 (gdtBytes - 1)) :
    s.fetch sel = if p.inUse then s.full.words[sel.toNat / 8]? else none := by
  rw [Segments.fetch, follows.gdtr]
  cases p.inUse with
  | true => exact if_pos ⟨global, inside⟩
  | false => rfl

theorem fetch_code (follows : Follows tssAddr p s) :
    s.fetch kernelCs = if p.inUse then some (writtenIf p.full gdtCode64) else none := by
  rw [follows.fetch kernelCs (by decide) (by decide), ← follows.fullCode]
  rfl

theorem fetch_data (follows : Follows tssAddr p s) :
    s.fetch kernelDs = if p.inUse then some (writtenIf p.full gdtData) else none := by
  rw [follows.fetch kernelDs (by decide) (by decide), ← follows.fullData]
  rfl

theorem reloadSegments (follows : Follows tssAddr p s) :
    Option.Rel (Follows tssAddr) p.reload s.reloadSegments := by
  rw [GdtPhase.reload, Segments.reloadSegments, loadCode, follows.fetch_code]
  cases used : p.inUse with
  | false => exact .none
  | true =>
      cases full : p.full with
      | false => exact .none
      | true =>
          -- CS is loaded; the table is still the same for the data segments
          have coded : Follows tssAddr p { s with
              regs := { s.regs with cs := kernelCs, code := some (.decode gdtCode64) } } :=
            { follows with
              reloaded := fun done =>
                have ⟨_, ss, data, _, stack⟩ := follows.reloaded done
                ⟨rfl, ss, data, rfl, stack⟩ }
          change Option.Rel _ _ (Segments.loadData kernelDs { s with
              regs := { s.regs with cs := kernelCs, code := some (.decode gdtCode64) } })
          rw [loadData, coded.fetch_data, used, full]
          refine .some { follows with
            fullCode := ?_, fullData := ?_, gdtr := ?_
            reloaded := fun _ => ⟨rfl, rfl, rfl, rfl, rfl⟩ }
          · exact full ▸ follows.fullCode
          · exact full ▸ follows.fullData
          · exact used ▸ follows.gdtr

theorem loadTss (follows : Follows tssAddr p s) :
    Option.Rel (Follows tssAddr) p.loadTask s.loadTss := by
  have low := follows.fetch tssSel (by decide) (by decide)
  have high := follows.fetch (tssSel + 8) (by decide) (by decide)
  rw [GdtPhase.loadTask, Segments.loadTss, low, high]
  cases used : p.inUse with
  | false => exact .none
  | true =>
      cases slot : p.slot with
      | blank =>
          have decoded : ¬ s.full.tss.decode.present = 1 := by
            rw [follows.slot, slot]
            change ¬ (TssDesc.decode { lo := 0, hi := 0 }).present = 1
            decide
          change Option.Rel _ none (if _ then _ else none)
          rw [if_neg fun loads => decoded loads.2.2.1]
          exact .none
      | busy =>
          have decoded : ¬ s.full.tss.decode.type = availableTss := by
            rw [follows.slot, slot]
            exact type_busy tssAddr
          change Option.Rel _ none (if _ then _ else none)
          rw [if_neg fun loads => decoded loads.1]
          exact .none
      | available =>
          have decoded := decode_tssDescAt tssAddr
          have desc : s.full.tss = tssDescAt tssAddr := by rw [follows.slot, slot]; rfl
          have canonical := follows.written (.inr (by simp [slot]))
          change Option.Rel _ (some _) (if _ then _ else none)
          rw [if_pos (by rw [desc, decoded]; exact ⟨rfl, rfl, rfl, rfl, by simpa using canonical⟩)]
          refine .some { follows with
            slot := ?_, gdtr := ?_, written := fun _ => canonical, tasked := fun _ => ⟨rfl, ?_⟩ }
          · rw [desc]
            rfl
          · exact used ▸ follows.gdtr
          · rw [desc]

/-! ### Runs -/

theorem exec (follows : Follows tssAddr p s) (dfIstStack : Word) (call : GdtCall) :
    Option.Rel (Follows tssAddr) (p.exec (isCanonical tssAddr) call)
      (call.exec dfIstStack tssAddr s) := by
  cases call with
  | buildGdtTss rsp0Top =>
      exact .some (follows.initTssOnly _ _).buildGdtEntriesOnly.buildTssDesc.buildFullTable
  | initTssOnly rsp0Top => exact .some (follows.initTssOnly _ _)
  | buildGdtEntriesOnly => exact .some follows.buildGdtEntriesOnly
  | buildTssDesc => exact .some follows.buildTssDesc
  | buildGdtEntries => exact .some follows.buildGdtEntriesOnly.buildTssDesc
  | buildFullTable => exact .some follows.buildFullTable
  | loadGdt => exact .some follows.loadGdt
  | reloadSegments => exact follows.reloadSegments
  | loadTss => exact follows.loadTss
  | initGdtAndTss rsp0Top =>
      have built :=
        (follows.initTssOnly dfIstStack rsp0Top).buildGdtEntriesOnly.buildTssDesc.buildFullTable
      exact rel_bind built.loadGdt.reloadSegments fun _ _ reloaded => reloaded.loadTss

theorem run (dfIstStack : Word) (calls : List GdtCall) (follows : Follows tssAddr p s) :
    Option.Rel (Follows tssAddr) (p.run (isCanonical tssAddr) calls)
      (runGdt dfIstStack tssAddr calls s) := by
  induction calls generalizing p s with
  | nil => exact .some follows
  | cons call calls inductionHypothesis =>
      rw [GdtPhase.run, runGdt, List.foldlM_cons, List.foldlM_cons]
      exact rel_bind (follows.exec dfIstStack call) fun _ _ after => inductionHypothesis after

theorem ready (follows : Follows tssAddr p s) (used : p.inUse = true)
    (reloaded : p.reloaded = true) (tasked : p.tasked = true) : SegmentsReady tssAddr s.regs := by
  obtain ⟨cs, ss, data, code, stack⟩ := follows.reloaded reloaded
  obtain ⟨tr, task⟩ := follows.tasked tasked
  have decoded := decode_tssDescAt tssAddr
  exact
    { gdtr := by rw [follows.gdtr, used, if_pos rfl]
      cs, ss, data, tr
      code := ⟨_, code, by decide⟩
      stack := ⟨_, stack, by decide⟩
      task := ⟨_, task, by rw [decoded], by rw [decoded]; rfl⟩ }

end Follows

end Segments

/-- Any calls of `gdt.rs` in any order: they go through if and only if the flags let them,
and whatever they were, `init_gdt_and_tss` then goes through and leaves the processor on
the segments of the kernel. -/
theorem segment_loads (dfIstStack tssAddr : Word) (regs : SegmentRegs) (calls : List GdtCall) :
    (runGdt dfIstStack tssAddr calls (.linked regs)).isSome =
        (GdtPhase.run (isCanonical tssAddr) calls .linked).isSome ∧
      ∀ s rsp0Top, runGdt dfIstStack tssAddr calls (.linked regs) = some s →
        isCanonical tssAddr = true →
        ∃ s', s.initGdtAndTss dfIstStack tssAddr rsp0Top = some s' ∧
          SegmentsReady tssAddr s'.regs := by
  have follows := (Segments.follows_linked tssAddr regs).run dfIstStack calls
  refine ⟨isSome_of_rel follows, fun s rsp0Top ran canonical => ?_⟩
  obtain ⟨p, -, follows⟩ := exists_left_of_rel follows ran
  obtain ⟨s', done, follows⟩ := exists_right_of_rel
    (follows.exec dfIstStack (.initGdtAndTss rsp0Top))
    (by rw [canonical]; exact p.exec_initGdtAndTss rsp0Top)
  exact ⟨s', done, follows.ready rfl rfl rfl⟩

/-- The calls of `init_core`. -/
def initCoreCalls (rsp : Word) : List GdtCall :=
  [.initTssOnly rsp, .buildGdtEntriesOnly, .buildFullTable, .loadGdt, .reloadSegments,
    .buildTssDesc, .buildFullTable, .loadTss]

/-- The registers before the first segment load. -/
def blankSegments : SegmentRegs where
  gdtr := none
  cs := 0x28
  ss := 0x30
  data := 0x30
  tr := 0
  code := none
  stack := none
  task := none

/-- After the calls of `init_core`, another `load_tss` faults on the busy descriptor, but
`init_gdt_and_tss` writes the table anew. -/
theorem segment_loads_twice :
    (runGdt 0 0 (initCoreCalls 0 ++ [.loadTss]) (.linked blankSegments)).isSome = false ∧
      ∃ s s', runGdt 0 0 (initCoreCalls 0) (.linked blankSegments) = some s ∧
        s.initGdtAndTss 0 0 0 = some s' ∧ SegmentsReady 0 s'.regs := by
  refine ⟨(segment_loads 0 0 blankSegments _).1.trans (by decide), ?_⟩
  obtain ⟨through, ready⟩ := segment_loads 0 0 blankSegments (initCoreCalls 0)
  obtain ⟨s, ran⟩ := Option.isSome_iff_exists.mp (through.trans (by decide))
  obtain ⟨s', done, ready⟩ := ready s 0 ran (by decide)
  exact ⟨s, s', ran, done, ready⟩

theorem initCore_eq (image : KernelImage) (rsp : Word) (s : Segments) :
    initCore image rsp s =
      (runGdt image.dfIstStack image.tssAddr (initCoreCalls rsp) s).map fun s =>
        (s, image.text.idt) := by
  simp only [initCore, runGdt, initCoreCalls, GdtCall.exec, Segments.initGdtAndSegments,
    Segments.loadTask, List.foldlM_cons, List.foldlM_nil, Option.bind_eq_bind, Option.pure_def,
    Option.bind_some, Option.map_eq_bind, Option.bind_assoc]
  rfl

theorem initCore_spec {image : KernelImage} (canonical : isCanonical image.tssAddr = true)
    (rsp : Word) (regs : SegmentRegs) :
    ∃ s, initCore image rsp (.linked regs) = some (s, image.text.idt) ∧
      SegmentsReady image.tssAddr s.regs := by
  have follows := (Segments.follows_linked image.tssAddr regs).run image.dfIstStack
    (initCoreCalls rsp)
  rw [canonical] at follows
  obtain ⟨s, ran, follows⟩ := exists_right_of_rel follows rfl
  exact ⟨s, by rw [initCore_eq, ran]; rfl, follows.ready rfl rfl rfl⟩

end RincOs
