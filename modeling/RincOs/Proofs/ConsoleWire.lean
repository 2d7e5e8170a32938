/-
Module: RincOs.Proofs.ConsoleWire
Purpose: What the writers give to the serial port, and what leaves it: the text that
  was logged can be read back from the bytes that have gone out.
Trusted boundary: none
Main exports:
  crlf, stripCr, stripCr_crlf, Console.Ready.print, Console.Ready.log_all, PortInv,
  wire_delivered
-/
import RincOs.Kernel.Console
import RincOs.Library.Delimited

namespace RincOs

open Delimited

/-! ### Line ends -/

/-- The bytes the writers give to the port for a text. -/
def crlf (s : Text) : Text :=
  s.flatMap fun b => if b = lineFeed then [carriageReturn, b] else [b]

/-- A receiver that drops the carriage return in front of each line feed. -/
def stripCr : Text → Text
  | [] => []
  | [b] => [b]
  | a :: b :: rest =>
      if a = carriageReturn ∧ b = lineFeed then b :: stripCr rest else a :: stripCr (b :: rest)

theorem crlf_append (s t : Text) : crlf (s ++ t) = crlf s ++ crlf t := by
  simp [crlf]

theorem crlf_cons_lineFeed (s : Text) :
    crlf (lineFeed :: s) = carriageReturn :: lineFeed :: crlf s := by
  simp [crlf]

theorem crlf_cons {b : BitVec 8} (other : b ≠ lineFeed) (s : Text) :
    crlf (b :: s) = b :: crlf s := by
  simp [crlf, other]

/-- No line feed comes without its carriage return. -/
theorem head_crlf (s : Text) : (crlf s).head? ≠ some lineFeed := by
  cases s with
  | nil => simp [crlf]
  | cons b s =>
      by_cases feed : b = lineFeed
      · rw [feed, crlf_cons_lineFeed]
        simp [carriageReturn, lineFeed]
      · rw [crlf_cons feed]
        simpa using feed

theorem stripCr_cons (b : BitVec 8) {s : Text} (head : s.head? ≠ some lineFeed) :
    stripCr (b :: s) = b :: stripCr s := by
  cases s with
  | nil => rfl
  | cons c s =>
      rw [stripCr, if_neg]
      rintro ⟨-, rfl⟩
      exact head rfl

theorem stripCr_crlf (s : Text) : stripCr (crlf s) = s := by
  induction s with
  | nil => rfl
  | cons b s inductionHypothesis =>
      by_cases feed : b = lineFeed
      · rw [feed, crlf_cons_lineFeed, stripCr, if_pos ⟨rfl, rfl⟩, inductionHypothesis]
      · rw [crlf_cons feed, stripCr_cons b (head_crlf s), inductionHypothesis]

theorem crlf_injective : Function.Injective crlf := Function.LeftInverse.injective stripCr_crlf

/-! ### Writers -/

namespace Console

/-- Both statics are set. -/
structure Ready (c : Console) : Prop where
  serial : c.serial = true
  logger : c.logger = true

def send (c : Console) (bytes : Text) : Console := { c with wire := c.wire ++ bytes }

theorem Ready.send {c : Console} (ready : c.Ready) (bytes : Text) : (c.send bytes).Ready :=
  ⟨ready.serial, ready.logger⟩

theorem send_send (c : Console) (s t : Text) : (c.send s).send t = c.send (s ++ t) := by
  simp [Console.send]

@[simp] theorem writeByte_serial (b : BitVec 8) (c : Console) :
    (c.writeByte b).serial = c.serial := by
  rw [Console.writeByte]
  split <;> rfl

@[simp] theorem writeByte_logger (b : BitVec 8) (c : Console) :
    (c.writeByte b).logger = c.logger := by
  rw [Console.writeByte]
  split <;> rfl

@[simp] theorem writeStr_serial (s : Text) (c : Console) : (c.writeStr s).serial = c.serial := by
  induction s generalizing c with
  | nil => rfl
  | cons b s inductionHypothesis =>
      rw [Console.writeStr, List.foldl_cons, ← Console.writeStr, inductionHypothesis]
      split <;> simp

theorem init_ready {c : Console} (serial : c.serial = true) : c.init.Ready :=
  ⟨by simp [Console.init, serial], by simp [Console.init]⟩

theorem Ready.writeByte {c : Console} (ready : c.Ready) (b : BitVec 8) :
    c.writeByte b = c.send [b] := by
  rw [Console.writeByte, if_pos ready.serial]
  rfl

theorem Ready.writeStr {c : Console} (ready : c.Ready) (s : Text) :
    c.writeStr s = c.send (crlf s) := by
  induction s generalizing c with
  | nil => simp [Console.writeStr, Console.send, crlf]
  | cons b s inductionHypothesis =>
      rw [Console.writeStr, List.foldl_cons, ← Console.writeStr]
      by_cases feed : b = lineFeed
      · rw [if_pos feed, ready.writeByte, (ready.send _).writeByte, send_send,
          inductionHypothesis (ready.send _), send_send, feed, crlf_cons_lineFeed]
        rfl
      · rw [if_neg feed, ready.writeByte, inductionHypothesis (ready.send _), send_send,
          crlf_cons feed]
        rfl

theorem Ready.after_writeStr {c : Console} (ready : c.Ready) (s : Text) :
    (c.writeStr s).Ready := by
  rw [ready.writeStr]
  exact ready.send _

/-- How a message is cut into pieces makes no difference. -/
theorem Ready.print {c : Console} (ready : c.Ready) (pieces : List Text) :
    c.print pieces = c.send (crlf pieces.flatten) := by
  induction pieces generalizing c with
  | nil => simp [Console.print, Console.send, crlf]
  | cons s pieces inductionHypothesis =>
      rw [Console.print, List.foldl_cons, ← Console.print, if_pos ready.logger, ready.writeStr,
        inductionHypothesis (ready.send _), send_send, List.flatten_cons, crlf_append]

theorem Ready.log {c : Console} (ready : c.Ready) (line : Text) :
    c.log line = c.send (crlf (line ++ [lineFeed])) := by
  rw [Console.log, ready.print, List.flatten_cons, List.flatten_singleton]

theorem Ready.after_log {c : Console} (ready : c.Ready) (line : Text) : (c.log line).Ready := by
  rw [ready.log]
  exact ready.send _

theorem Ready.log_all {c : Console} (ready : c.Ready) (lines : List Text) :
    lines.foldl (fun c line => c.log line) c = c.send (crlf (unlines lineFeed lines)) := by
  induction lines generalizing c with
  | nil => simp [Console.send, crlf]
  | cons line lines inductionHypothesis =>
      rw [List.foldl_cons, ready.log, inductionHypothesis (ready.send _), send_send, ← crlf_append,
        unlines_cons, List.append_assoc]
      rfl

end Console

/-! ### The port -/

/-- Every byte is in one place, and the register is empty between the check and the write. -/
structure PortInv (text : Text) (s : PortState) : Prop where
  places : s.uart.sent ++ s.uart.holding.toList ++ s.todo = text
  empty : s.polled = true → s.uart.holding = none

theorem PortStep.inv {text : Text} {s s' : PortState} (step : PortStep s s')
    (inv : PortInv text s) : PortInv text s' := by
  cases step with
  | wait busy => exact inv
  | poll more ready => exact ⟨inv.places, fun _ => by simpa [Uart.ready] using ready⟩
  | write next polled =>
      -- the register is still empty: between the check and the write nothing fills it
      refine ⟨?_, fun again => by cases again⟩
      have places := inv.places
      rw [inv.empty polled, next] at places
      simpa [Uart.outb] using places
  | transmit => exact ⟨by simpa [Uart.transmit] using inv.places, fun _ => rfl⟩

theorem PortRun.inv {text : Text} {start s : PortState} (run : PortRun start s)
    (inv : PortInv text start) : PortInv text s := by
  induction run with
  | start => exact inv
  | step before next inductionHypothesis => exact next.inv inductionHypothesis

theorem PortRun.trans {s t u : PortState} (one : PortRun s t) (two : PortRun t u) :
    PortRun s u := by
  induction two with
  | start => exact one
  | step before next inductionHypothesis => exact inductionHypothesis.step next

/-- The port never gets stuck: the bytes left can always be written. -/
theorem port_drains (todo : Text) (polled : Bool) (uart : Uart) :
    ∃ s', PortRun { todo := todo, polled := polled, uart := uart } s' ∧ s'.todo = [] ∧
      s'.uart.ready = true := by
  induction todo generalizing polled uart with
  | nil => exact ⟨_, PortRun.start.step .transmit, rfl, rfl⟩
  | cons b todo inductionHypothesis =>
      have sent : PortRun { todo := b :: todo, polled := polled, uart := uart }
          { todo := b :: todo, polled := polled, uart := uart.transmit } :=
        PortRun.start.step .transmit
      have polls := sent.step (.poll (List.cons_ne_nil b todo) rfl)
      have wrote := polls.step (.write rfl rfl)
      obtain ⟨s', run, done, ready⟩ := inductionHypothesis false (uart.transmit.outb b)
      exact ⟨s', wrote.trans run, done, ready⟩

/-- What the transmitter has been given so far. -/
def Uart.taken (u : Uart) : Text := u.sent ++ u.holding.toList

/-- The kernel about to write bytes to the port. -/
def PortState.sending (bytes : Text) (uart : Uart) : PortState where
  todo := bytes
  polled := false
  uart := uart

/-- Whatever was written before, whatever the pieces of a message, and however the polling of
`com1_write` and the transmitter interleave: the message is written behind what was there, with
its line ends; what has gone out is the front of that, it can always be completed, and then the
message is read back from it. -/
theorem wire_delivered {c : Console} (ready : c.Ready) (pieces : List Text) {uart : Uart}
    {s : PortState}
    (run : PortRun (.sending ((c.print pieces).wire.drop c.wire.length) uart) s) :
    (c.print pieces).wire = c.wire ++ crlf pieces.flatten ∧
      s.uart.sent <+: uart.taken ++ crlf pieces.flatten ∧
      (s.todo = [] → s.uart.ready = true →
        s.uart.sent = uart.taken ++ crlf pieces.flatten ∧
          stripCr (s.uart.sent.drop uart.taken.length) = pieces.flatten) ∧
      ∃ s', PortRun s s' ∧ s'.todo = [] ∧ s'.uart.ready = true := by
  have wire : (c.print pieces).wire = c.wire ++ crlf pieces.flatten := by
    rw [ready.print, Console.send]
  rw [wire, List.drop_left] at run
  have inv : PortInv (uart.taken ++ crlf pieces.flatten) s :=
    run.inv ⟨rfl, fun polled => by cases polled⟩
  refine ⟨wire, ⟨s.uart.holding.toList ++ s.todo, ?_⟩, fun done idle => ?_, port_drains _ _ _⟩
  · rw [← List.append_assoc]
    exact inv.places
  · have holding : s.uart.holding = none := by simpa [Uart.ready] using idle
    have all : s.uart.sent = uart.taken ++ crlf pieces.flatten := by
      simpa [holding, done] using inv.places
    refine ⟨all, ?_⟩
    rw [all, List.drop_left, stripCr_crlf]

/-- The console of `kentry` after `console::init`, which writes "OK" and a bare line feed. -/
def initConsole : Console :=
  (({ Console.linked with serial := true }.writeStr (ascii "ENTER kentry\n".toList)).writeStr
    (ascii "AFTER bootinfo\n".toList)).init

theorem initConsole_ready : initConsole.Ready := by
  apply Console.init_ready
  rw [Console.writeStr_serial, Console.writeStr_serial]

/-- The transmitter still holds the line feed. -/
def initUart : Uart := { holding := some lineFeed, sent := initConsole.wire.dropLast }

/-- The line feed has gone out, and the first of the bytes of "A" and a line end is in the
holding register. -/
def firstHeld : PortState where
  todo := [carriageReturn, lineFeed]
  polled := false
  uart := { holding := some 0x41, sent := initConsole.wire }

theorem initUart_taken : initUart.taken = initConsole.wire := by decide +kernel

theorem wire_delivered_first :
    initConsole.wire = initUart.taken ∧
      firstHeld.uart.sent <+: initUart.taken ++ crlf [0x41, lineFeed] ∧
      ∃ s', PortRun firstHeld s' ∧ s'.todo = [] ∧ s'.uart.ready = true := by
  have bytes : (initConsole.print [[0x41], [lineFeed]]).wire.drop initConsole.wire.length =
      [0x41, carriageReturn, lineFeed] := by
    rw [initConsole_ready.print, Console.send, List.drop_left]
    decide
  have waiting : PortRun (.sending [0x41, carriageReturn, lineFeed] initUart)
      (.sending [0x41, carriageReturn, lineFeed] initUart) := .start
  have sent := waiting.step .transmit
  have polled := sent.step (.poll (by decide) rfl)
  have wrote := polled.step (.write rfl rfl)
  have run : PortRun (.sending [0x41, carriageReturn, lineFeed] initUart) firstHeld := by
    rw [firstHeld, ← initUart_taken]
    exact wrote
  rw [← bytes] at run
  have delivered := wire_delivered initConsole_ready [[0x41], [lineFeed]] run
  exact ⟨initUart_taken.symm, delivered.2.1, delivered.2.2.2⟩

end RincOs
