/-
Module: RincOs.Kernel.Console
Purpose: The serial console: the two writers of the kernel, the logger, the serial
  port under them, and the boot information as `print_boot_info` logs it.
Trusted boundary: human-reviewed embedding of `kernel/src/{log,debug,drivers}`, of
  `kernel/src/bootinfo.rs`, of `crates/hal/src/serial.rs` and of
  `arch/x86_64/src/serial.rs`; human-reviewed meaning of `{}`, `{:02}`, `{:#x}` and
  `{:02x}` and of `core::str::from_utf8`; human-reviewed model of the transmitter
Main exports:
  Console, Console.writeStr, Console.log, Uart, PortStep, PortRun, utf8Valid,
  bootInfoLines, Console.printBootInfo
-/
import RincOs.Boot.Strings
import RincOs.Kernel.Interrupts

namespace RincOs

open ByteMemory

/-! ### Writers -/

/-- A Rust string as its bytes. -/
abbrev Text := List (BitVec 8)

def lineFeed : BitVec 8 := 0x0a
def carriageReturn : BitVec 8 := 0x0d

/-- A text of ASCII characters. -/
def ascii (text : List Char) : Text := text.map fun c => BitVec.ofNat 8 c.toNat

/-- The statics of `hal::serial` and `log`, and the bytes given to the port so far. -/
structure Console where
  /-- `SERIAL` is set. -/
  serial : Bool
  /-- `LOGGER` is set. -/
  logger : Bool
  wire : Text
deriving DecidableEq

/-- The statics as they are linked. -/
def Console.linked : Console where
  serial := false
  logger := false
  wire := []

namespace Console

/-- `hal::serial_write_byte`. -/
def writeByte (b : BitVec 8) (c : Console) : Console :=
  if c.serial then { c with wire := c.wire ++ [b] } else c

/-- `early_serial::write_str` and `Serial::write_str`, which have the same body. -/
def writeStr (s : Text) (c : Console) : Console :=
  s.foldl (fun c b =>
    let c := if b = lineFeed then c.writeByte carriageReturn else c
    c.writeByte b) c

/-- `log::_print`, for the pieces into which the arguments are formatted. -/
def print (pieces : List Text) (c : Console) : Console :=
  pieces.foldl (fun c s => if c.logger then c.writeStr s else c) c

/-- `klogln!`. -/
def log (line : Text) (c : Console) : Console := c.print [line, [lineFeed]]

/-- `console::init`. -/
def init (c : Console) : Console :=
  let c := { c with logger := true }
  ((c.writeByte 0x4f).writeByte 0x4b).writeByte lineFeed

end Console

/-! ### The port -/

/-- The transmitter: the byte in its holding register, and what has gone out. -/
structure Uart where
  holding : Option (BitVec 8)
  sent : Text
deriving DecidableEq

/-- The bit `com1_write` waits for: the holding register is empty. -/
def Uart.ready (u : Uart) : Bool := u.holding.isNone

/-- `outb` to the holding register. -/
def Uart.outb (u : Uart) (b : BitVec 8) : Uart := { u with holding := some b }

/-- The transmitter takes the byte over. -/
def Uart.transmit (u : Uart) : Uart :=
  { holding := none, sent := u.sent ++ u.holding.toList }

/-- The kernel with the bytes it still has to write. -/
structure PortState where
  todo : Text
  /-- `com1_write` has seen the register empty and not written yet. -/
  polled : Bool
  uart : Uart
deriving DecidableEq

/-- A step of `com1_write` or of the transmitter. -/
inductive PortStep : PortState → PortState → Prop where
  | wait {s : PortState} (busy : s.uart.ready = false) : PortStep s s
  | poll {s : PortState} (more : s.todo ≠ []) (ready : s.uart.ready = true) :
      PortStep s { s with polled := true }
  | write {s : PortState} {b : BitVec 8} {rest : Text} (next : s.todo = b :: rest)
      (polled : s.polled = true) :
      PortStep s { todo := rest, polled := false, uart := s.uart.outb b }
  | transmit {s : PortState} : PortStep s { s with uart := s.uart.transmit }

inductive PortRun (start : PortState) : PortState → Prop where
  | start : PortRun start start
  | step {s s' : PortState} (before : PortRun start s) (next : PortStep s s') :
      PortRun start s'

/-! ### Numbers and strings -/

/-- The digits `{}` prints. -/
def decDigits (n : Nat) : List Char :=
  if n = 0 then ['0'] else ((Nat.digits 10 n).map Nat.digitChar).reverse

/-- The digits with zeros in front, up to two places. -/
def padTwo (digits : List Char) : List Char := List.replicate (2 - digits.length) '0' ++ digits

/-- What `{:#x}` prints. -/
def hexNumber (n : Nat) : List Char := '0' :: 'x' :: hexDigits n

def isContinuation (b : BitVec 8) : Bool := 0x80 ≤ b && b ≤ 0xbf

/-- `core::str::from_utf8` accepts the bytes. -/
def utf8Valid : Text → Bool
  | [] => true
  | a :: rest =>
      if a < 0x80 then utf8Valid rest
      else
        match rest with
        | [] => false
        | b :: rest =>
            if 0xc2 ≤ a && a ≤ 0xdf then isContinuation b && utf8Valid rest
            else
              match rest with
              | [] => false
              | c :: rest =>
                  if 0xe0 ≤ a && a ≤ 0xef then
                    isContinuation b && isContinuation c && (a != 0xe0 || 0xa0 ≤ b) &&
                      (a != 0xed || b ≤ 0x9f) && utf8Valid rest
                  else
                    match rest with
                    | [] => false
                    | d :: rest =>
                        0xf0 ≤ a && a ≤ 0xf4 && isContinuation b && isContinuation c &&
                          isContinuation d && (a != 0xf0 || 0x90 ≤ b) &&
                          (a != 0xf4 || b ≤ 0x8f) && utf8Valid rest

/-! ### The boot information -/

/-- `BOOTABI_MAGIC`, `BOOTABI_VERSION` and `size_of::<BootInfo>()`. -/
def bootabiMagic : Nat := 0x424f4f54
def bootabiVersion : Nat := 1
def bootInfoSize : Nat := 120

/-- The names `print_boot_info` gives to boot modes. -/
def BootMode.label : BootMode → List Char
  | .bios => "BIOS".toList
  | .uefi => "UEFI".toList
  | .unknown => "Unknown".toList

/-- What `{:?}` prints of an `Arch`. -/
def BootArch.debug : BootArch → List Char
  | .x86_64 => "X86_64".toList
  | .aarch64 => "Aarch64".toList

/-- `mem_type_name`. -/
def memTypeName : MemType → List Char
  | .reserved => "reserved".toList
  | .usable => "usable".toList
  | .acpiReclaimable => "acpi_reclaimable".toList
  | .acpiNvs => "acpi_nvs".toList
  | .mmio => "mmio".toList
  | .badMemory => "bad_memory".toList
  | .bootloaderReclaimable => "bootloader_reclaimable".toList
  | .kernelAndModules => "kernel_and_modules".toList

/-- `mem_flags_suffix`. -/
def memFlagsSuffix (flags : BitVec 16) : List Char :=
  if flags &&& 1 ≠ 0 then " (TRUNCATED)".toList else []

/-- `print_bytespan`, where the span names `bytes`. -/
def byteSpanLine (label : List Char) (span : ByteSpan) (bytes : Text) : Text :=
  if span.ptr = 0 ∨ span.len = 0 then
    ascii ("[boot] ".toList ++ label ++ "=<none>".toList)
  else if utf8Valid bytes then ascii ("[boot] ".toList ++ label ++ "=".toList) ++ bytes
  else
    ascii ("[boot] ".toList ++ label ++ "=0x".toList) ++
      bytes.flatMap fun b => ascii (padTwo (hexDigits b.toNat))

/-- The lines in front of the strings. -/
def identityLines (info : ImportedBootInfo) : List (List Char) :=
  ["[boot] hdr magic=".toList ++ hexNumber bootabiMagic ++ " version=".toList ++
      decDigits bootabiVersion ++ " size=".toList ++ decDigits bootInfoSize,
    "[boot] mode=".toList ++ info.bootMode.label,
    "[boot] arch=".toList ++ info.arch.debug ++ " cpu_count=".toList ++
      decDigits info.cpuCount.toNat ++ " phys_bits=".toList ++
      decDigits info.physAddrBits.toNat ++ " virt_bits=".toList ++
      decDigits info.virtAddrBits.toNat,
    "[boot] hhdm=".toList ++ hexNumber info.hhdmOffset.toNat ++ " acpi_rsdp=".toList ++
      hexNumber info.acpiRsdp.toNat,
    "[boot] boot_flags=".toList ++ hexNumber info.bootFlags.toNat]

/-- The line of entry `i`. -/
def memoryLine (i : Nat) (entry : MemMapEntry) : List Char :=
  "[mem] ".toList ++ padTwo (decDigits i) ++ " base=".toList ++ hexNumber entry.base.toNat ++
    " len=".toList ++ hexNumber entry.len.toNat ++ " type=".toList ++ memTypeName entry.memType

/-- The lines behind the strings, where `entry` reads the memory map. -/
def memoryLines (view : MemMapView) (entry : Nat → MemMapEntry) : List (List Char) :=
  ("[mem] entries=".toList ++ decDigits view.entryCount.toNat ++ " entry_size=".toList ++
      decDigits view.entrySize.toNat ++ " flags=".toList ++ hexNumber view.flags.toNat ++
      memFlagsSuffix view.flags) ::
    if view.entryCount = 0 ∨ view.entriesPtr = 0 then ["[mem] <none>".toList]
    else if view.entrySize.toNat ≠ memMapEntrySize then
      ["[mem] unsupported entry_size=".toList ++ decDigits view.entrySize.toNat ++
        " (expected ".toList ++ decDigits memMapEntrySize ++ ")".toList]
    else (List.range view.entryCount.toNat).map fun i => memoryLine i (entry i)

/-- The bytes of a span in the string buffer. -/
def ByteSpan.bytes (statics : ImportStatics) (m : Mem) (span : ByteSpan) : Text :=
  readBytes m (statics.strbuf.phys + (span.ptr - statics.strbuf.ptr)).toNat span.len.toNat

/-- The lines `print_boot_info` logs.  There never is a framebuffer. -/
def bootInfoLines (statics : ImportStatics) (info : ImportedBootInfo) (m : Mem) : List Text :=
  (identityLines info).map ascii ++
    [byteSpanLine "cmdline".toList info.cmdline (info.cmdline.bytes statics m),
      byteSpanLine "bootloader".toList info.bootloader (info.bootloader.bytes statics m),
      ascii "[boot] fb=<none>".toList] ++
    (memoryLines info.mem (statics.membuf.entry m)).map ascii

/-- `print_boot_info`. -/
def Console.printBootInfo (statics : ImportStatics) (info : ImportedBootInfo) (m : Mem)
    (c : Console) : Console :=
  (bootInfoLines statics info m).foldl (fun c line => c.log line) c

end RincOs
