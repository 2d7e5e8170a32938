/-
Module: RincOs.Proofs.BootToService
Purpose: From the bootloader to the VM service.  If the memory map of the bootloader
  is consistent, the kernel enables interrupts, and every call of the VM service from
  then on that its callers may make is answered as the specification says, with as
  many frames as the free entries of that map have pages.  Nothing outside of these
  pages is ever written, and the tables the kernel runs on stay as they are.
Trusted boundary: none
Main exports:
  Imported.gather, LimineBoot.reads, serialRun_writes, GoodHandOff, kernel_serves
-/
import RincOs.Proofs.BootOutcome
import RincOs.Proofs.BufferedMap
import RincOs.Proofs.StringArena

namespace RincOs

open LawfulFrameAlloc ByteMemory

/-! ### Strings do not disturb the map -/

section

variable {statics : ImportStatics} {m m' : Mem} {map : List MemMapEntry} {hhdmOffset : Word}
  {s : ImportState}

theorem Imported.copy (imported : Imported statics m map s.mem) (view : StrView) :
    Imported statics m map (strbufAllocCopy statics hhdmOffset view s).2.mem := by
  rw [strbufAllocCopy]
  split
  · exact imported
  · dsimp only
    split
    · exact imported
    · rename_i room
      apply imported.write
      rw [length_bytes]
      omega

theorem Imported.join (imported : Imported statics m map s.mem) (a b : StrView) :
    Imported statics m map (strbufAllocJoin statics hhdmOffset a b s).2.mem := by
  rw [strbufAllocJoin]
  split
  · exact imported.copy b
  split
  · exact imported.copy a
  dsimp only
  split
  · exact imported
  · rename_i room
    rw [List.length_singleton] at room
    apply Imported.write
    · apply Imported.write
      · apply imported.write
        rw [length_bytes]
        omega
      · rw [List.length_singleton]
        omega
    · rw [length_bytes, List.length_singleton]
      omega

/-- `gather_bootinfo` leaves the map in the buffer, whatever the strings are. -/
theorem Imported.gather (statics : ImportStatics) (arch : BootArch)
    (responses : LimineResponses) (cpuCount : BitVec 32) (m : Mem)
    (valid : responses.revisionValid = true) (supported : responses.revisionSupported = true) :
    Imported statics m responses.converted
      (gatherBootinfo statics arch responses cpuCount m).2.mem := by
  obtain ⟨-, imported⟩ := imported_start responses statics m
  rw [gatherBootinfo, valid, supported]
  change Imported statics m responses.converted (gatherBootloader ..).2.mem
  have cmdline : Imported statics m responses.converted
      (gatherCmdline statics responses (responses.hhdm.getD 0)
        (gatherMemmap statics responses m).1.1
        { mem := (gatherMemmap statics responses m).2, used := 0 }).2.mem := by
    rw [gatherCmdline]
    split
    · exact Imported.copy imported _
    · exact imported
  rw [gatherBootloader]
  split
  · exact cmdline
  · dsimp only
    split
    · exact cmdline.join _ _
    · exact cmdline.copy _
    · exact cmdline.copy _
    · exact cmdline

end

/-- So the allocator finds the entries of the bootloader there. -/
theorem LimineBoot.reads {statics : ImportStatics} {entries : List LimineEntry}
    {imageStart imageEnd : Nat} (good : LimineBoot statics.membuf entries imageStart imageEnd)
    {responses : LimineResponses} (given : responses.memmap = some entries) {m m' : Mem}
    (imported : Imported statics m responses.converted m') :
    Reads statics.membuf good.map m' := by
  intro i inside
  have found := List.getElem?_eq_getElem (inside : i < entries.length)
  have converted : responses.converted[i]? = some (convertEntry entries[i]) := by
    rw [LimineResponses.converted, given, Option.getD_some, List.take_of_length_le good.fits,
      List.getElem?_map, found, Option.map_some]
  rw [imported.entries i _ converted]
  exact (convertedView_eq found).symm

/-! ### What is never written -/

section

variable {A C : Type} [PageTableFrameAlloc A] [LawfulFrameAlloc A] [DecidableEq C]
  {root : PhysAddr} {start t : Shared C A} {history : List (SerialEvent C)} {pages : Set PhysAddr}

/-- Serial calls write to frames of the allocator only. -/
theorem serialRun_writes (settled : KernelSettled root start.sys)
    (owned : ∀ {al : A} {f : PhysAddr}, Held al f → f ∈ pages)
    (serial : SerialRun start history t) :
    KernelSettled root t.sys ∧
      ∀ x, t.sys.mem x = start.sys.mem x ∨ ∃ f ∈ pages, InFrame f x := by
  induction serial with
  | start => exact ⟨settled, fun _ => .inl rfl⟩
  | @call history t before c call may inductionHypothesis =>
      obtain ⟨settled', written⟩ := inductionHypothesis
      refine ⟨(serial_effect c settled' may).settled, fun x => ?_⟩
      have viewed : KernelSettled root (t.view c) := settled'.withTlb _
      have allowed : call.Allowed (t.view c).toMachine := ⟨may.target, may.lower⟩
      rcases vmCall_writes viewed allowed x with same | ⟨f, -, inside, held⟩
      · exact (written x).imp_left same.trans
      · exact .inr ⟨f, owned held, inside⟩

end

/-! ### The kernel of a hand-off -/

/-- What the bootloader and the firmware owe the kernel, apart from a consistent memory map. -/
structure GoodHandOff (image : KernelImage) (h : HandOff) (entries : List LimineEntry) : Prop where
  canonical : isCanonical image.tssAddr = true
  valid : h.responses.revisionValid = true
  supported : h.responses.revisionSupported = true
  hhdm : h.responses.hhdm.getD 0 ≠ 0
  memmap : h.responses.memmap = some entries
  root : h.regs.cr3 &&& addrMask ≠ 0
  /-- The tables the kernel runs on, with those of the direct map, are not in memory that is
  called free. -/
  reserved : ∀ t, IsTable h.mem (h.regs.cr3 &&& addrMask) t →
    ∀ entry ∈ entries, entry.isFree = true → ¬ entry.PageIn t
  /-- Nor are they in the buffers of the importer. -/
  apart : ∀ t, IsTable h.mem (h.regs.cr3 &&& addrMask) t →
    ∀ a, t.toNat ≤ a → a < t.toNat + 4096 → ¬ image.statics.Owns a
  nx : h.control.refusesNx = false
  powered : ∀ info, PoweredOn (h.node info)
  rdtscp : hasRdtscp h.cpuid = true
  deadline : hasTscDeadline h.cpuid = true

section

variable {image : KernelImage} {h : HandOff} {entries : List LimineEntry}
  {imageStart imageEnd : Nat}

theorem GoodHandOff.described (handed : GoodHandOff image h entries) (nonempty : entries ≠ []) :
    h.responses.described = true := by
  simpa [LimineResponses.described, handed.valid, handed.supported, handed.memmap, nonempty]
    using handed.hhdm

theorem GoodHandOff.accepts (handed : GoodHandOff image h entries) :
    h.lapic.refuses h.cpuid = false := by
  have findable := (handed.powered (minimalBootinfo .x86_64 1).toBootInfo).findable
  rw [ApicMachine.Findable] at findable
  cases has : hasX2apic h.cpuid with
  | false => simp [Lapic.refuses, has]
  | true =>
      have enabled : h.lapic.enabled = true := by simpa [HandOff.node, has] using findable
      simp [Lapic.refuses, enabled, handed.deadline]

theorem GoodHandOff.verdict (handed : GoodHandOff image h entries) (nonempty : entries ≠ []) :
    h.verdict = .running := by
  have mapped : h.responses.strays = false := by
    have offset : (h.responses.hhdm.getD 0 == 0) = false := beq_eq_false_iff_ne.mpr handed.hhdm
    rw [LimineResponses.strays, offset, Bool.and_false, Bool.false_and]
  rw [HandOff.verdict, mapped, if_neg Bool.false_ne_true, handed.described nonempty,
    if_neg (by decide), if_neg handed.root, handed.nx, if_neg Bool.false_ne_true, handed.accepts,
    if_neg Bool.false_ne_true, handed.rdtscp, handed.deadline, Bool.not_true, Bool.and_false,
    if_neg Bool.false_ne_true, if_neg Bool.false_ne_true]

/-- The import leaves the tables alone. -/
theorem GoodHandOff.imported_tables (handed : GoodHandOff image h entries) {t : PhysAddr}
    (table : IsTable h.mem (h.regs.cr3 &&& addrMask) t) (i : Fin entryCount) :
    readEntry (h.imported image).2.mem t i = readEntry h.mem t i := by
  have imported := Imported.gather image.statics .x86_64 h.responses 1 h.mem handed.valid
    handed.supported
  have frame := table.isFrame (isFrame_and_addrMask _)
  obtain ⟨aligned, bounded⟩ := (isFrame_iff t).mp frame
  have index : i.val < 512 := i.isLt
  have place : entryAddr t i = BitVec.ofNat 64 (t.toNat + 8 * i.val) := by
    apply BitVec.eq_of_toNat_eq
    rw [toNat_entryAddr frame, BitVec.toNat_ofNat]
    omega
  rw [readEntry, readEntry, place]
  apply word_ext (by omega)
  intro k small
  exact imported.others _ (by omega) (handed.apart t table _ (by omega) (by omega))

/-- Writes to free pages leave every translation of the kernel as the bootloader made it. -/
theorem GoodHandOff.walks (handed : GoodHandOff image h entries) {pages : List PhysAddr}
    (order : InMapOrder entries pages) {m : Mem}
    (written : ∀ x, m x = (h.imported image).2.mem x ∨ ∃ f ∈ pages, InFrame f x)
    (below : ∀ f ∈ pages, IsFrame f) (v : VirtAddr) :
    hwWalk m (h.regs.cr3 &&& addrMask) v = hwWalk h.mem (h.regs.cr3 &&& addrMask) v := by
  refine hwWalk_congr (fun {t} table i => ?_) v
  have frame := table.isFrame (isFrame_and_addrMask _)
  rw [← handed.imported_tables table i]
  rcases written (entryAddr t i) with same | ⟨f, page, inside⟩
  · exact same
  · obtain rfl := (inFrame_entryAddr_iff frame (below f page) i).mp inside
    obtain ⟨entry, listed, free, whole⟩ := (order.exact f).mp page
    exact absurd whole (handed.reserved f table entry listed free)

/-- The count in the boot information is the one of the bootloader's map. -/
theorem LimineBoot.count_imported
    (good : LimineBoot image.statics.membuf entries imageStart imageEnd)
    (handed : GoodHandOff image h entries) :
    (h.imported image).1.mem.entryCount.toNat = good.map.count := by
  have fits := good.fits
  have view : (h.imported image).1.mem =
      (convertMemmapEntries image.statics.membuf entries h.mem).1.1 := by
    simp [HandOff.imported, gatherBootinfo, handed.valid, handed.supported, gatherMemmap,
      handed.memmap]
  rw [view, good.converted_eq, BitVec.toNat_ofNat]
  rw [maxMemmap] at fits
  exact Nat.mod_eq_of_lt (by omega)

theorem freshStart_up {map : BootMap} {info : BootInfo} {alloc : BootPtAlloc}
    (created : BootPtAlloc.new info = some alloc) (count : info.mem.entryCount.toNat = map.count)
    (m : Mem) (cr3 : Word) (nx : Bool) :
    FreshStart map ⟨.up m cr3 nx, ⟨alloc⟩⟩ where
  alloc := ⟨info, created, count⟩
  slots := fun _ used => by cases used
  kernel := fun _ same => by cases same

end

/-! ### The hand-off with one entry of memory -/

theorem limineBoot_oneEntry :
    LimineBoot oneEntryStatics.membuf
      [{ base := 0x1000, length := 0x1000, entryType := .bootloaderReclaimable }] 0x200000
      0x211000 where
  nonempty := by decide
  fits := by decide
  below := by decide
  disjoint {i j x one two} found found' _ _ _ _ := by
    have first := (List.getElem?_eq_some_iff.mp found).1
    have second := (List.getElem?_eq_some_iff.mp found').1
    rw [List.length_singleton] at first second
    omega
  ptr := by decide
  bufferStart := by decide
  bufferEnd := by decide
  imageBelow := by decide
  imageApart entry listed free x low high := by
    rw [List.mem_singleton] at listed
    subst listed
    simp [LimineEntry.Covers]
    omega

/-- The PML4 and the PDPT of the direct map are the only tables. -/
theorem table_directMapMem {level : Nat} {t : PhysAddr}
    (table : TableAt directMapMem 0x300000 level t) :
    (level = 4 ∧ t = 0x300000) ∨ (level = 3 ∧ t = 0x301000) := by
  have root : ∀ i, present (readEntry directMapMem 0x300000 i) = true →
      readEntry directMapMem 0x300000 i &&& addrMask = 0x301000 := by decide +kernel
  have pdpt : ∀ i, present (readEntry directMapMem 0x301000 i) = true →
      isLarge (readEntry directMapMem 0x301000 i) = true := by decide +kernel
  induction table with
  | pml4 => exact Or.inl ⟨rfl, rfl⟩
  | pdpt i entry => exact Or.inr ⟨rfl, root i entry⟩
  | inner _ bounded i entry small inductionHypothesis =>
      rcases inductionHypothesis with ⟨top, -⟩ | ⟨-, rfl⟩
      · omega
      · exact absurd (pdpt i entry) small

theorem isTable_oneEntry {t : PhysAddr}
    (table : IsTable oneEntryHandOff.mem (oneEntryHandOff.regs.cr3 &&& addrMask) t) :
    t = 0x300000 ∨ t = 0x301000 := by
  obtain ⟨level, table⟩ := table
  exact (table_directMapMem table).imp And.right And.right

theorem goodHandOff_oneEntry :
    GoodHandOff oneEntryImage oneEntryHandOff
      [{ base := 0x1000, length := 0x1000, entryType := .bootloaderReclaimable }] where
  canonical := by decide
  valid := rfl
  supported := rfl
  hhdm := by decide
  memmap := rfl
  root := by decide
  reserved t table entry listed _ := by
    rw [List.mem_singleton] at listed
    subst listed
    unfold LimineEntry.PageIn
    rcases isTable_oneEntry table with rfl | rfl <;> decide
  apart t table a low high := by
    have membuf : oneEntryStatics.membuf.phys.toNat = 0x200000 := rfl
    have strbuf : oneEntryStatics.strbuf.phys.toNat = 0x210000 := rfl
    have above : 0x300000 ≤ t.toNat := by
      rcases isTable_oneEntry table with rfl | rfl <;> decide
    change ¬ oneEntryStatics.Owns a
    rw [ImportStatics.Owns, membuf, strbuf, memMapEntrySize, maxMemmap, strbufSize]
    omega
  nx := by decide
  powered _ :=
    { sane := fun set => absurd set (by decide : ¬ resetLapic.extended = true)
      findable := by
        change if hasX2apic crystalCpuid = true then resetLapic.enabled = true
          else resetLapic.frame.toNat < 2 ^ 32
        decide
      isr := fun _ => rfl }
  rdtscp := by decide
  deadline := by decide

end RincOs
