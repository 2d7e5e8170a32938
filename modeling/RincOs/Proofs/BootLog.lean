/-
Module: RincOs.Proofs.BootLog
Purpose: What `print_boot_info` logs says what the bootloader has passed.  The lines in
  front of the strings and those behind them are read back, whatever the strings hold.
Trusted boundary: none
Main exports:
  numeralValue_numeral, LineOf, memoryLine_injective, mapLines_determined,
  identityLines_determined, printBootInfo_determines, kentry_console, kentry_log_determines
-/
import RincOs.Proofs.BootToService
import RincOs.Proofs.ConsoleWire

namespace RincOs

open Delimited

/-! ### Words -/

/-- Printable, and no blank. -/
def Plain (word : List Char) : Prop := ∀ c ∈ word, 33 ≤ c.toNat ∧ c.toNat < 127

instance (word : List Char) : Decidable (Plain word) :=
  List.decidableBAll (fun c : Char => 33 ≤ c.toNat ∧ c.toNat < 127) word

theorem Plain.append {a b : List Char} (left : Plain a) (right : Plain b) : Plain (a ++ b) := by
  intro c inside
  rcases List.mem_append.mp inside with inside | inside
  · exact left c inside
  · exact right c inside

theorem Plain.no_blank {word : List Char} (plain : Plain word) : ' ' ∉ word := by
  intro inside
  have range := (plain ' ' inside).1
  exact absurd range (by decide)

/-- The line consists of the words, with a blank between them. -/
structure LineOf (words : List (List Char)) (line : List Char) : Prop where
  joined : line ++ [' '] = unlines ' ' words
  plain : ∀ word ∈ words, Plain word

theorem LineOf.printable {words : List (List Char)} {line : List Char}
    (isLine : LineOf words line) : ∀ c ∈ line, 32 ≤ c.toNat ∧ c.toNat < 127 := by
  intro c inside
  have among : c ∈ unlines ' ' words := isLine.joined ▸ List.mem_append_left _ inside
  obtain ⟨word, isWord, place⟩ := List.mem_flatMap.mp among
  rcases List.mem_append.mp place with place | place
  · have range := isLine.plain word isWord c place
    omega
  · rw [List.mem_singleton.mp place]
    decide

theorem ofNat_ascii {line : List Char} (printable : ∀ c ∈ line, 32 ≤ c.toNat ∧ c.toNat < 127) :
    (ascii line).map (fun b => Char.ofNat b.toNat) = line := by
  rw [ascii, List.map_map]
  refine (List.map_congr_left fun c inside => ?_).trans (List.map_id line)
  have range := printable c inside
  rw [Function.comp_apply, BitVec.toNat_ofNat, Nat.mod_eq_of_lt (by omega), Char.ofNat_toNat]
  rfl

theorem LineOf.no_lineFeed {words : List (List Char)} {line : List Char}
    (isLine : LineOf words line) : lineFeed ∉ ascii line := by
  intro inside
  obtain ⟨c, isChar, feed⟩ := List.mem_map.mp inside
  have range := isLine.printable c isChar
  have value := congrArg BitVec.toNat feed
  rw [BitVec.toNat_ofNat] at value
  change _ = 10 at value
  omega

/-- The words are read back from the bytes. -/
theorem LineOf.words_eq {words words' : List (List Char)} {line line' : List Char}
    (one : LineOf words line) (two : LineOf words' line') (same : ascii line = ascii line') :
    words = words' := by
  have lines : line = line' := by
    rw [← ofNat_ascii one.printable, same, ofNat_ascii two.printable]
  apply unlines_injective (fun word isWord => (one.plain word isWord).no_blank)
    (fun word isWord => (two.plain word isWord).no_blank)
  rw [← one.joined, ← two.joined, lines]

/-! ### Numerals -/

def digitValue (c : Char) : Nat := if c.toNat < 58 then c.toNat - 48 else c.toNat - 87

def numeralValue (base : Nat) (digits : List Char) : Nat :=
  digits.foldl (fun value c => base * value + digitValue c) 0

/-- `decDigits` and `hexDigits`, for any base. -/
def numeral (base n : Nat) : List Char :=
  if n = 0 then ['0'] else ((Nat.digits base n).map Nat.digitChar).reverse

theorem digitChar_spec : ∀ d < 16,
    digitValue d.digitChar = d ∧ 33 ≤ d.digitChar.toNat ∧ d.digitChar.toNat < 127 := by
  decide

theorem foldr_digits (base : Nat) {ds : List Nat} (digits : ∀ d ∈ ds, d < 16) :
    (ds.map Nat.digitChar).foldr (fun c value => base * value + digitValue c) 0 =
      Nat.ofDigits base ds := by
  induction ds with
  | nil => rfl
  | cons d ds inductionHypothesis =>
      rw [List.map_cons, List.foldr_cons, (digitChar_spec d (digits d (.head _))).1,
        inductionHypothesis fun d inside => digits d (.tail _ inside), Nat.ofDigits_cons,
        Nat.add_comm]

section

variable {base : Nat} (two : 1 < base) (small : base ≤ 16)
include two small

theorem digit_lt {n d : Nat} (digit : d ∈ Nat.digits base n) : d < 16 :=
  (Nat.digits_lt_base two digit).trans_le small

theorem numeralValue_numeral (n : Nat) : numeralValue base (numeral base n) = n := by
  rw [numeral]
  split
  · rename_i zero
    rw [zero]
    simp [numeralValue, digitValue]
  · rw [numeralValue, List.foldl_reverse,
      foldr_digits base fun d digit => digit_lt two small digit, Nat.ofDigits_digits]

theorem plain_numeral (n : Nat) : Plain (numeral base n) := by
  rw [numeral]
  split
  · decide
  · intro c inside
    obtain ⟨d, digit, rfl⟩ := List.mem_map.mp (List.mem_reverse.mp inside)
    exact (digitChar_spec d (digit_lt two small digit)).2

end

theorem numeralValue_zeros (base k : Nat) : numeralValue base (List.replicate k '0') = 0 := by
  induction k with
  | zero => rfl
  | succ k inductionHypothesis =>
      rw [numeralValue, List.replicate_succ, List.foldl_cons]
      exact inductionHypothesis

theorem numeralValue_padTwo (base : Nat) (digits : List Char) :
    numeralValue base (padTwo digits) = numeralValue base digits := by
  rw [numeralValue, padTwo, List.foldl_append, ← numeralValue, numeralValue_zeros, numeralValue]

theorem plain_decDigits (n : Nat) : Plain (decDigits n) := plain_numeral (by decide) (by decide) n

theorem plain_hexNumber (n : Nat) : Plain (hexNumber n) :=
  Plain.append (a := ['0', 'x']) (by decide) (plain_numeral (by decide) (by decide) n)

theorem plain_padTwo {digits : List Char} (plain : Plain digits) : Plain (padTwo digits) := by
  refine Plain.append (fun c inside => ?_) plain
  rw [List.eq_of_mem_replicate inside]
  decide

theorem decDigits_injective : Function.Injective decDigits :=
  Function.LeftInverse.injective (numeralValue_numeral (by decide) (by decide))

theorem padTwo_decDigits_injective : Function.Injective fun n => padTwo (decDigits n) := by
  apply Function.LeftInverse.injective (g := numeralValue 10)
  intro n
  rw [numeralValue_padTwo]
  exact numeralValue_numeral (by decide) (by decide) n

theorem hexNumber_injective : Function.Injective hexNumber := by
  intro n k same
  have digits : numeral 16 n = numeral 16 k := (List.cons.inj (List.cons.inj same).2).2
  exact Function.LeftInverse.injective
    (numeralValue_numeral (by decide) (by decide)) digits

/-! ### The memory map -/

theorem memTypeName_injective : Function.Injective memTypeName := by
  intro a b same
  cases a <;> cases b <;> first | rfl | exact absurd same (by decide)

theorem plain_memTypeName (t : MemType) : Plain (memTypeName t) := by
  cases t <;> decide

def memoryWords (i : Nat) (entry : MemMapEntry) : List (List Char) :=
  ["[mem]".toList, padTwo (decDigits i), "base=".toList ++ hexNumber entry.base.toNat,
    "len=".toList ++ hexNumber entry.len.toNat, "type=".toList ++ memTypeName entry.memType]

theorem memoryWords_joined (i : Nat) (entry : MemMapEntry) :
    memoryLine i entry ++ [' '] = unlines ' ' (memoryWords i entry) := by
  unfold memoryLine memoryWords
  generalize padTwo (decDigits i) = index
  generalize hexNumber entry.base.toNat = base
  generalize hexNumber entry.len.toNat = len
  generalize memTypeName entry.memType = kind
  simp

theorem memoryWords_plain (i : Nat) (entry : MemMapEntry) :
    ∀ word ∈ memoryWords i entry, Plain word := by
  simp only [memoryWords, List.forall_mem_cons]
  refine ⟨by decide, plain_padTwo (plain_decDigits _), Plain.append ?_ (plain_hexNumber _),
    Plain.append ?_ (plain_hexNumber _), Plain.append ?_ (plain_memTypeName _), by simp⟩
  all_goals decide

theorem memoryLine_words (i : Nat) (entry : MemMapEntry) :
    LineOf (memoryWords i entry) (memoryLine i entry) :=
  ⟨memoryWords_joined i entry, memoryWords_plain i entry⟩

theorem memoryLine_injective {i k : Nat} {entry entry' : MemMapEntry}
    (flags : entry.flags = entry'.flags)
    (same : ascii (memoryLine i entry) = ascii (memoryLine k entry')) :
    i = k ∧ entry = entry' := by
  have words := (memoryLine_words i entry).words_eq (memoryLine_words k entry') same
  simp only [memoryWords, List.cons.injEq, List.append_cancel_left_eq, true_and, and_true] at words
  obtain ⟨index, base, len, kind⟩ := words
  refine ⟨padTwo_decDigits_injective index, ?_⟩
  cases entry
  cases entry'
  obtain rfl := BitVec.eq_of_toNat_eq (hexNumber_injective base)
  obtain rfl := BitVec.eq_of_toNat_eq (hexNumber_injective len)
  obtain rfl := memTypeName_injective kind
  obtain rfl := flags
  rfl

theorem noneLine_words :
    LineOf ["[mem]".toList, "<none>".toList] "[mem] <none>".toList :=
  ⟨by simp, by decide⟩

/-- An empty map is not taken for the last of several entries. -/
theorem noneLine_ne (i : Nat) (entry : MemMapEntry) :
    ascii "[mem] <none>".toList ≠ ascii (memoryLine i entry) := by
  intro same
  have words := noneLine_words.words_eq (memoryLine_words i entry) same
  exact absurd (congrArg List.length words) (by simp [memoryWords])

/-- The lines of the map. -/
def mapLines (map : List MemMapEntry) : List (List Char) :=
  if map = [] then ["[mem] <none>".toList] else map.mapIdx memoryLine

/-- The last line is that of the last entry, with its index. -/
theorem mapLines_last (map : List MemMapEntry) :
    ∃ front line, mapLines map = front ++ [line] ∧
      (map = [] ∧ line = "[mem] <none>".toList ∨
        ∃ i, ∃ entry ∈ map, map.length = i + 1 ∧ line = memoryLine i entry) := by
  rcases List.eq_nil_or_concat' map with rfl | ⟨front, last, rfl⟩
  · exact ⟨[], _, rfl, .inl ⟨rfl, rfl⟩⟩
  · refine ⟨front.mapIdx memoryLine, _, ?_,
      .inr ⟨front.length, last, by simp, by simp, rfl⟩⟩
    rw [mapLines, if_neg (by simp), List.mapIdx_concat]

/-- Where the view describes the map, all of it is printed. -/
theorem memoryLines_map {view : MemMapView} {map : List MemMapEntry} {entry : Nat → MemMapEntry}
    (described : Describes view map) (entries : ∀ i e, map[i]? = some e → entry i = e) :
    ∃ head, memoryLines view entry = head :: mapLines map := by
  refine ⟨_, congrArg (List.cons _) ?_⟩
  by_cases empty : map = []
  · have zero : view.entryCount = 0 := by
      apply BitVec.eq_of_toNat_eq
      rw [described.count, empty]
      rfl
    rw [if_pos (.inl zero), mapLines, if_pos empty]
  · have counted : view.entryCount ≠ 0 := by
      intro zero
      have count := described.count
      rw [zero] at count
      exact empty (List.length_eq_zero_iff.mp count.symm)
    rw [if_neg (not_or.mpr ⟨counted, described.mapped empty⟩),
      if_neg (not_not.mpr described.size), mapLines, if_neg empty, described.count]
    apply List.ext_getElem (by simp)
    intro i inside _
    have place : i < map.length := by simpa using inside
    rw [List.getElem_map, List.getElem_range, List.getElem_mapIdx,
      entries i _ (List.getElem?_eq_getElem place)]

theorem mapLines_no_lineFeed (map : List MemMapEntry) :
    ∀ line ∈ (mapLines map).map ascii, lineFeed ∉ line := by
  rw [List.forall_mem_map, mapLines]
  split
  · rw [List.forall_mem_singleton]
    exact noneLine_words.no_lineFeed
  · intro line inside
    obtain ⟨i, _, rfl⟩ := List.mem_mapIdx.mp inside
    exact (memoryLine_words _ _).no_lineFeed

section

variable {map map' : List MemMapEntry} {x y : Text}
  (flags : ∀ entry ∈ map, entry.flags = 0) (flags' : ∀ entry ∈ map', entry.flags = 0)
  (same : x ++ lineFeed :: unlines lineFeed ((mapLines map).map ascii) =
    y ++ lineFeed :: unlines lineFeed ((mapLines map').map ascii))
include flags flags' same

/-- The last line tells how many there are. -/
theorem mapLines_length : map.length = map'.length := by
  obtain ⟨front, line, lines, last⟩ := mapLines_last map
  obtain ⟨front', line', lines', last'⟩ := mapLines_last map'
  have feeds := mapLines_no_lineFeed map
  have feeds' := mapLines_no_lineFeed map'
  rw [lines, List.map_append] at feeds
  rw [lines', List.map_append] at feeds'
  rw [lines, lines', List.map_append, List.map_append] at same
  have ends : ascii line = ascii line' :=
    (unlines_last (feeds _ (by simp)) (feeds' _ (by simp)) same).1
  rcases last with ⟨rfl, rfl⟩ | ⟨i, entry, inside, length, rfl⟩ <;>
    rcases last' with ⟨rfl, rfl⟩ | ⟨k, entry', inside', length', rfl⟩
  · rfl
  · exact absurd ends (noneLine_ne _ _)
  · exact absurd ends.symm (noneLine_ne _ _)
  · have index := (memoryLine_injective
      ((flags entry inside).trans (flags' entry' inside').symm) ends).1
    rw [length, length', index]

/-- The map is determined by the end of the log, whatever stands in front of it. -/
theorem mapLines_determined : map = map' := by
  have length := mapLines_length flags flags' same
  by_cases empty : map = []
  · rw [empty] at length ⊢
    exact (List.length_eq_zero_iff.mp length.symm).symm
  have empty' : map' ≠ [] := by
    rintro rfl
    exact empty (List.length_eq_zero_iff.mp length)
  -- with as many lines on both sides they can be cut off from the end
  have lines := unlines_back (mapLines_no_lineFeed map) (mapLines_no_lineFeed map')
    (by simp [mapLines, empty, empty', length]) same
  rw [mapLines, mapLines, if_neg empty, if_neg empty'] at lines
  apply List.ext_getElem length
  intro i inside inside'
  have line := congrArg (fun lines => lines[i]?) lines
  simp only [List.getElem?_map, List.getElem?_mapIdx, List.getElem?_eq_getElem inside,
    List.getElem?_eq_getElem inside', Option.map_some, Option.some.injEq] at line
  exact (memoryLine_injective ((flags _ (List.getElem_mem inside)).trans
    (flags' _ (List.getElem_mem inside')).symm) line).2

end

/-! ### The lines in front of the strings -/

theorem lines_no_lineFeed {words : List (List (List Char))} {lines : List (List Char)}
    (spelt : List.Forall₂ LineOf words lines) : ∀ line ∈ lines.map ascii, lineFeed ∉ line := by
  induction spelt with
  | nil => simp
  | cons isLine rest inductionHypothesis =>
      rw [List.map_cons, List.forall_mem_cons]
      exact ⟨isLine.no_lineFeed, inductionHypothesis⟩

theorem lines_words_eq {words words' : List (List (List Char))} {lines lines' : List (List Char)}
    (one : List.Forall₂ LineOf words lines) (two : List.Forall₂ LineOf words' lines')
    (same : lines.map ascii = lines'.map ascii) : words = words' := by
  induction one generalizing words' lines' with
  | nil =>
      cases two with
      | nil => rfl
      | cons isLine rest => cases same
  | cons isLine rest inductionHypothesis =>
      cases two with
      | nil => cases same
      | cons isLine' rest' =>
          obtain ⟨line, lines⟩ := List.cons.inj same
          rw [isLine.words_eq isLine' line, inductionHypothesis rest' lines]

theorem BootMode.label_injective : Function.Injective BootMode.label := by
  intro a b same
  cases a <;> cases b <;> first | rfl | exact absurd same (by decide)

theorem BootArch.debug_injective : Function.Injective BootArch.debug := by
  intro a b same
  cases a <;> cases b <;> first | rfl | exact absurd same (by decide)

def identityWords (info : ImportedBootInfo) : List (List (List Char)) :=
  [["[boot]".toList, "hdr".toList, "magic=".toList ++ hexNumber bootabiMagic,
      "version=".toList ++ decDigits bootabiVersion, "size=".toList ++ decDigits bootInfoSize],
    ["[boot]".toList, "mode=".toList ++ info.bootMode.label],
    ["[boot]".toList, "arch=".toList ++ info.arch.debug,
      "cpu_count=".toList ++ decDigits info.cpuCount.toNat,
      "phys_bits=".toList ++ decDigits info.physAddrBits.toNat,
      "virt_bits=".toList ++ decDigits info.virtAddrBits.toNat],
    ["[boot]".toList, "hhdm=".toList ++ hexNumber info.hhdmOffset.toNat,
      "acpi_rsdp=".toList ++ hexNumber info.acpiRsdp.toNat],
    ["[boot]".toList, "boot_flags=".toList ++ hexNumber info.bootFlags.toNat]]

theorem identityWords_plain (info : ImportedBootInfo) :
    ∀ words ∈ identityWords info, ∀ word ∈ words, Plain word := by
  have label : Plain info.bootMode.label := by cases info.bootMode <;> decide
  have arch : Plain info.arch.debug := by cases info.arch <;> decide
  simp only [identityWords, List.forall_mem_cons]
  refine ⟨⟨by decide, by decide, Plain.append ?_ (plain_hexNumber _),
      Plain.append ?_ (plain_decDigits _), Plain.append ?_ (plain_decDigits _), by simp⟩,
    ⟨by decide, Plain.append ?_ label, by simp⟩,
    ⟨by decide, Plain.append ?_ arch, Plain.append ?_ (plain_decDigits _),
      Plain.append ?_ (plain_decDigits _), Plain.append ?_ (plain_decDigits _), by simp⟩,
    ⟨by decide, Plain.append ?_ (plain_hexNumber _), Plain.append ?_ (plain_hexNumber _), by simp⟩,
    ⟨by decide, Plain.append ?_ (plain_hexNumber _), by simp⟩, by simp⟩
  -- what is left are the names in front of the values
  all_goals decide

theorem identityWords_joined (info : ImportedBootInfo) :
    (identityLines info).map (fun line => line ++ [' ']) =
      (identityWords info).map (unlines ' ') := by
  unfold identityLines identityWords
  generalize hexNumber bootabiMagic = magic
  generalize decDigits bootabiVersion = version
  generalize decDigits bootInfoSize = size
  generalize decDigits info.cpuCount.toNat = cpus
  simp

theorem lineOf_all {words : List (List (List Char))} {lines : List (List Char)}
    (joined : lines.map (fun line => line ++ [' ']) = words.map (unlines ' '))
    (plain : ∀ line ∈ words, ∀ word ∈ line, Plain word) : List.Forall₂ LineOf words lines := by
  induction words generalizing lines with
  | nil =>
      rw [List.map_eq_nil_iff.mp joined]
      exact .nil
  | cons first words inductionHypothesis =>
      cases lines with
      | nil => cases joined
      | cons line lines =>
          obtain ⟨here, behind⟩ := List.cons.inj joined
          rw [List.forall_mem_cons] at plain
          exact .cons ⟨here, plain.1⟩ (inductionHypothesis behind plain.2)

theorem identityLines_words (info : ImportedBootInfo) :
    List.Forall₂ LineOf (identityWords info) (identityLines info) :=
  lineOf_all (identityWords_joined info) (identityWords_plain info)

/-- The fields the first lines print. -/
structure SameIdentity (info info' : ImportedBootInfo) : Prop where
  bootMode : info.bootMode = info'.bootMode
  arch : info.arch = info'.arch
  cpuCount : info.cpuCount = info'.cpuCount
  physAddrBits : info.physAddrBits = info'.physAddrBits
  virtAddrBits : info.virtAddrBits = info'.virtAddrBits
  hhdmOffset : info.hhdmOffset = info'.hhdmOffset
  acpiRsdp : info.acpiRsdp = info'.acpiRsdp
  bootFlags : info.bootFlags = info'.bootFlags

theorem identityLines_determined {info info' : ImportedBootInfo}
    (same : (identityLines info).map ascii = (identityLines info').map ascii) :
    SameIdentity info info' := by
  have words := lines_words_eq (identityLines_words info) (identityLines_words info') same
  simp only [identityWords, List.cons.injEq, List.append_cancel_left_eq, true_and, and_true]
    at words
  obtain ⟨mode, ⟨arch, cpus, phys, virt⟩, ⟨hhdm, rsdp⟩, flags⟩ := words
  have decimal {w : Nat} {a b : BitVec w} (digits : decDigits a.toNat = decDigits b.toNat) :
      a = b := BitVec.eq_of_toNat_eq (decDigits_injective digits)
  have hexadecimal {w : Nat} {a b : BitVec w} (digits : hexNumber a.toNat = hexNumber b.toNat) :
      a = b := BitVec.eq_of_toNat_eq (hexNumber_injective digits)
  exact ⟨BootMode.label_injective mode, BootArch.debug_injective arch, decimal cpus, decimal phys,
    decimal virt, hexadecimal hhdm, hexadecimal rsdp, hexadecimal flags⟩

/-! ### The report -/

/-- The boot information names the map, and the map is in the buffer. -/
structure Passed (statics : ImportStatics) (info : ImportedBootInfo) (m : Mem)
    (map : List MemMapEntry) : Prop where
  described : Describes info.mem map
  entries : ∀ i entry, map[i]? = some entry → statics.membuf.entry m i = entry
  flags : ∀ entry ∈ map, entry.flags = 0

theorem passed_gather {responses : LimineResponses}
    (valid : responses.revisionValid = true) (supported : responses.revisionSupported = true)
    (statics : ImportStatics) (arch : BootArch) (cpuCount : BitVec 32) (m : Mem) :
    Passed statics (gatherBootinfo statics arch responses cpuCount m).1
      (gatherBootinfo statics arch responses cpuCount m).2.mem responses.converted where
  described := by
    rw [gatherBootinfo, valid, supported]
    exact (imported_start responses statics m).1
  entries := (Imported.gather statics arch responses cpuCount m valid supported).entries
  flags := by
    intro entry inside
    obtain ⟨limine, _, rfl⟩ := List.mem_map.mp inside
    rfl

section

variable {statics statics' : ImportStatics} {info info' : ImportedBootInfo} {m m' : Mem}
  {map map' : List MemMapEntry} {c : Console}

/-- The strings are in the middle. -/
theorem Passed.lines (passed : Passed statics info m map) :
    ∃ x, unlines lineFeed (bootInfoLines statics info m) =
      unlines lineFeed ((identityLines info).map ascii) ++
        (x ++ lineFeed :: unlines lineFeed ((mapLines map).map ascii)) := by
  obtain ⟨head, printed⟩ := memoryLines_map passed.described passed.entries
  obtain ⟨x, ends⟩ := @unlines_ends _ lineFeed
    (byteSpanLine "cmdline".toList info.cmdline (info.cmdline.bytes statics m))
    [byteSpanLine "bootloader".toList info.bootloader (info.bootloader.bytes statics m),
      ascii "[boot] fb=<none>".toList, ascii head]
  refine ⟨x, ?_⟩
  rw [bootInfoLines, printed, unlines_append, unlines_append, List.append_assoc, List.map_cons,
    unlines_cons, unlines_cons]
  congr 1
  -- only that the part between ends with a line feed is used of the strings
  have shift := congrArg (· ++ unlines lineFeed ((mapLines map).map ascii)) ends
  simpa only [unlines_cons, unlines_nil, List.append_assoc, List.cons_append, List.nil_append]
    using shift

theorem Console.Ready.printBootInfo (ready : c.Ready) (statics : ImportStatics)
    (info : ImportedBootInfo) (m : Mem) :
    c.printBootInfo statics info m =
      c.send (crlf (unlines lineFeed (bootInfoLines statics info m))) :=
  ready.log_all _

/-- The command line and the name of the bootloader may hold any bytes, line ends as well: a
line in them is never taken for a line of the memory map. -/
theorem printBootInfo_determines (ready : c.Ready) (passed : Passed statics info m map)
    (passed' : Passed statics' info' m' map')
    (same : (c.printBootInfo statics info m).wire = (c.printBootInfo statics' info' m').wire) :
    map = map' ∧ SameIdentity info info' := by
  rw [ready.printBootInfo, ready.printBootInfo] at same
  have texts := crlf_injective (List.append_cancel_left same)
  obtain ⟨x, lines⟩ := passed.lines
  obtain ⟨y, lines'⟩ := passed'.lines
  rw [lines, lines'] at texts
  obtain ⟨front, back⟩ := unlines_front (lines_no_lineFeed (identityLines_words info))
    (lines_no_lineFeed (identityLines_words info')) (by simp [identityLines]) texts
  exact ⟨mapLines_determined passed.flags passed'.flags back, identityLines_determined front⟩

end

/-! ### The log of a whole boot -/

/-- What `kmain` logs behind the report, up to `enable_interrupts`. -/
def closingLines : List Text :=
  [ascii "[init] vm".toList, ascii "[init] arch time".toList, ascii "[init] arch irqs".toList,
    ascii "[init] time".toList]

theorem entryConsole_ready : entryConsole.Ready := initConsole_ready.after_log _

theorem reportConsole_ready : reportConsole.Ready :=
  (((entryConsole_ready.after_writeStr _).after_log _).after_log _).after_log _

section

variable {image : KernelImage} {h : HandOff} {info : ImportedBootInfo} {m : Mem}
  {segments : Segments} {idt : Idt} {control control' : Control} {console : Console}
  {sys : Sys (BufferedAlloc image.statics.membuf)} {k : Kernel image.statics.membuf}

theorem closingLines_logged (console : Console) :
    timeConsole (console.log (ascii "[init] vm".toList)) =
      closingLines.foldl (fun c line => c.log line) console := by
  rw [closingLines, timeConsole, List.foldl_cons, List.foldl_cons, List.foldl_cons,
    List.foldl_cons, List.foldl_nil]

theorem kmainFromIrqs_console
    (done : kmainFromIrqs image h info sys control segments idt
      (console.log (ascii "[init] vm".toList)) = .ok k) :
    k.info = info ∧ k.console = closingLines.foldl (fun c line => c.log line) console := by
  rw [← closingLines_logged]
  cases started : (h.node info.toBootInfo).startIrqs with
  | error kind =>
      obtain ⟨console', stopped⟩ := kmainFromIrqs_refused started
      rw [stopped] at done
      cases done
  | ok result =>
      obtain ⟨apicOk, node⟩ := result
      cases apicOk with
      | false =>
          simp only [kmainFromIrqs, started, orPanic_bind] at done
          cases done
      | true =>
          cases timed : node.initTime with
          | error kind =>
              obtain ⟨console', stopped⟩ := kmainFromIrqs_untimed started timed
              rw [stopped] at done
              cases done
          | ok last =>
              rw [kmainFromIrqs_ok started timed] at done
              obtain rfl := Except.ok.inj done
              exact ⟨rfl, rfl⟩

/-- Where `kmain` enables interrupts, the answers of the bootloader have been usable, and it has
logged all its lines up to there. -/
theorem kmainFromVm_console
    (done : kmainFromVm image h info m segments idt control
      (console.log (ascii "[init] vm".toList)) = .ok k) :
    (BootPtAlloc.new info.toBootInfo).isSome = true ∧ k.info = info ∧
      k.console = closingLines.foldl (fun c line => c.log line) console := by
  rcases @vmInit_cases image.statics.membuf info.toBootInfo m control with
    ⟨-, failed⟩ | ⟨-, -, failed⟩ | ⟨-, -, -, failed⟩ |
    ⟨-, -, alloc, control', created, -, -, -, up⟩
  · rw [kmainFromVm_error failed] at done
    cases done
  · rw [kmainFromVm_error failed] at done
    cases done
  · rw [kmainFromVm_error failed] at done
    cases done
  · rw [kmainFromVm_ok up] at done
    exact ⟨congrArg Option.isSome created, kmainFromIrqs_console done⟩

end

theorem kentry_console {image : KernelImage} {h : HandOff} {k : Kernel image.statics.membuf}
    (canonical : isCanonical image.tssAddr = true) (booted : kentry image h = .ok k) :
    h.responses.described = true ∧ k.info = (h.imported image).1 ∧
      k.console.wire =
        (reportConsole.printBootInfo image.statics (h.imported image).1
          (h.imported image).2.mem).wire ++ crlf (unlines lineFeed closingLines) := by
  obtain ⟨segments, control, -, -, -, started⟩ := kentry_eq h canonical
  split at started
  · obtain ⟨console, faulted⟩ := started
    rw [faulted] at booted
    cases booted
  obtain ⟨given, info, lines⟩ := kmainFromVm_console (started.symm.trans booted)
  have ready : (reportConsole.printBootInfo image.statics (h.imported image).1
      (h.imported image).2.mem).Ready := by
    rw [reportConsole_ready.printBootInfo]
    exact reportConsole_ready.send _
  have logged := lines.trans (ready.log_all closingLines)
  have described := new_gatherBootinfo image.statics .x86_64 h.responses 1 h.mem
  exact ⟨described.symm.trans given, info, congrArg Console.wire logged⟩

/-- Two boots that get to enabling interrupts with the same bytes on the serial port have been
passed the same memory map, and run on the same direct map, RSDP, boot mode and flags. -/
theorem kentry_log_determines {image image' : KernelImage} {h h' : HandOff}
    {k : Kernel image.statics.membuf} {k' : Kernel image'.statics.membuf}
    (canonical : isCanonical image.tssAddr = true)
    (canonical' : isCanonical image'.tssAddr = true)
    (booted : kentry image h = .ok k) (booted' : kentry image' h' = .ok k')
    (same : k.console.wire = k'.console.wire) :
    h.responses.converted = h'.responses.converted ∧ SameIdentity k.info k'.info := by
  obtain ⟨given, info, wire⟩ := kentry_console canonical booted
  obtain ⟨given', info', wire'⟩ := kentry_console canonical' booted'
  simp only [LimineResponses.described, Bool.and_eq_true] at given given'
  obtain ⟨⟨⟨valid, supported⟩, -⟩, -⟩ := given
  obtain ⟨⟨⟨valid', supported'⟩, -⟩, -⟩ := given'
  rw [wire, wire'] at same
  rw [info, info']
  exact printBootInfo_determines reportConsole_ready (passed_gather valid supported ..)
    (passed_gather valid' supported' ..) (List.append_cancel_right same)

/-- The hand-off with one entry, later and with a null RSDP in place of none. -/
def laterHandOff : HandOff :=
  { oneEntryHandOff with
    responses := { oneEntryResponses with rsdp := some 0 }
    tsc := 9000 }

/-- A null pointer is taken as none. -/
theorem gatherBootinfo_null_rsdp (statics : ImportStatics) (arch : BootArch)
    (responses : LimineResponses) (cpuCount : BitVec 32) (m : Mem)
    (missing : responses.rsdp = none) :
    gatherBootinfo statics arch responses cpuCount m =
      gatherBootinfo statics arch { responses with rsdp := some 0 } cpuCount m := by
  unfold gatherBootinfo
  rw [missing]
  rfl

/-- The log depends on the gathered information only. -/
theorem kentry_wire_eq {image : KernelImage} {h h' : HandOff}
    {k k' : Kernel image.statics.membuf} (canonical : isCanonical image.tssAddr = true)
    (booted : kentry image h = .ok k) (booted' : kentry image h' = .ok k')
    (gathered : h.imported image = h'.imported image) : k.console.wire = k'.console.wire := by
  rw [(kentry_console canonical booted).2.2, (kentry_console canonical booted').2.2, gathered]

theorem kentry_boots {image : KernelImage} {h : HandOff}
    (canonical : isCanonical image.tssAddr = true) (extended : h.lapic.extended = false)
    (verdict : h.verdict = .running) : ∃ k, kentry image h = .ok k := by
  have sane : h.lapic.extended = true → h.lapic.enabled = true ∧ hasX2apic h.cpuid = true := by
    simp [extended]
  rcases kentry_outcome canonical sane with
    ⟨-, k, booted, -⟩ | ⟨message, -, stopped, -⟩ | ⟨faulted, -⟩
  · exact ⟨k, booted⟩
  · rw [verdict] at stopped
    cases stopped
  · rw [verdict] at faulted
    cases faulted

theorem kentry_log_determines_later :
    ∃ k k', kentry oneEntryImage oneEntryHandOff = .ok k ∧
      kentry oneEntryImage laterHandOff = .ok k' ∧ k.console.wire = k'.console.wire ∧
      SameIdentity k.info k'.info := by
  have canonical : isCanonical oneEntryImage.tssAddr = true := by decide
  obtain ⟨k, booted⟩ := @kentry_boots _ oneEntryHandOff canonical (by decide) (by decide)
  obtain ⟨k', booted'⟩ := @kentry_boots _ laterHandOff canonical (by decide) (by decide)
  have same := kentry_wire_eq canonical booted booted' (gatherBootinfo_null_rsdp _ _ _ _ _ rfl)
  exact ⟨k, k', booted, booted', same,
    (kentry_log_determines canonical canonical booted booted' same).2⟩

end RincOs
