import Cs140e.Library.Decimal
import Cs140e.Esp.Parse

/-!
# Issuing commands and handling the response

A translation of `esp-run.c`.  The loops that wait for a line of the esp run
until their fuel is used up.  The console is the list of echoed lines, and what
`esp_write_exact` has sent is kept with the lexer at that moment.
-/

namespace Cs140e.Esp

open Cs140e.Library

/-- `esp_t` and what its functions act on.  `client` is the data of the code
behind `handle_ooo_msg`, which nothing else touches. -/
structure EspT (B γ : Type) where
  l : Lex B
  activeP : Bool
  client : γ
  sent : List (Lex B × List UInt8)
  echoed : List (String × List UInt8)
  /-- How much the device takes in the next writes; it takes the others whole. -/
  writes : List Nat

section

variable {B γ : Type}

def onLex {α : Type} (program : Prog (Lex B) α) : Prog (EspT B γ) α :=
  Prog.onPart EspT.l (fun l e => { e with l := l }) program

/-- `esp_write_exact`, which panics unless everything was written. -/
def espWriteExact (buf : List UInt8) : Prog (EspT B γ) Nat := fun e =>
  let written := buf.take (e.writes.headD buf.length)
  let after := { e with sent := e.sent ++ [(e.l, written)], writes := e.writes.tail }
  if written.length ≠ buf.length then
    .error (.panic "could not write <%d> bytes, have: %d\n") after
  else .ok buf.length after

/-- What `%s` prints of a buffer. -/
def cString (buf : List UInt8) : List UInt8 := buf.takeWhile (· ≠ 0)

/-- `char buf[1024]` of the functions below. -/
def lineBuf : List UInt8 := List.replicate 1024 0

/-- `cmd_puts`, with its buffer of 1024 bytes. -/
def cmdPuts (cmdOp : List UInt8) : Prog (EspT B γ) Unit := do
  Prog.assertThat (cmdOp.length ≠ 0) "n"
  Prog.assertThat (cmdOp.length < 1024 - 2) "n < sizeof cmd - 2"
  if (← espWriteExact (cmdOp ++ [13, 10])) = 0 then
    throw (.panic "write failed\n")

end

section

variable {B γ : Type} [Lexer B]

def cmdEchoLine (msg : String) : Prog (EspT B γ) Unit := do
  let (n, buf) ← onLex (getNonblankLine lineBuf 1024)
  if n ≠ 0 then
    modify fun e => { e with echoed := e.echoed ++ [(msg, cString buf)] }

/-- `first || second`. -/
def either {σ : Type} (first second : Prog σ Bool) : Prog σ Bool := do
  if ← first then pure true
  else second

def matchBusy : Prog (Lex B) Bool :=
  either (matchLineOnly (ascii "busy s...")) (matchLineOnly (ascii "busy p..."))

/-- The end of the loops that allow no extra output: a blank line is skipped,
any other one is fatal. -/
def noExtra : Prog (EspT B γ) Unit := do
  if ← onLex matchBlankLine then
    pure ()
  else
    let (n, _) ← onLex (getNonblankLine lineBuf 1024)
    if n = 0 then
      throw (.panic "expected non-blank!\n")
    else
      throw (.panic "specified no extra output for command.  hit some:<%s>.\n")

/-- The end of the loops: a line that was not expected. -/
def skipExtra (extraP : Bool) : Prog (EspT B γ) Unit :=
  if extraP then cmdEchoLine "skipping extra:"
  else noExtra

/-- The matches one round of `cmd_response` tries; `none` when none of them
succeeds, else what the round does: return a value or go on. -/
def responseTries (endString : List UInt8) (canFailP : Bool) :
    Prog (Lex B) (Option (Option Bool)) := do
  if ← matchLineOnly endString then
    pure (some (some true))
  else if ← matchTok (ascii "ERROR") then
    if canFailP then
      pure (some (some false))
    else
      throw (.panic "fatal error: got an error\n")
  else if ← matchBusy then
    pure (some none)
  else
    pure none

/-- One round of the loop of `cmd_response`. -/
def responseRound (endString : List UInt8) (canFailP extraP : Bool) :
    Prog (EspT B γ) (Option Bool) := do
  match ← onLex (responseTries endString canFailP) with
  | some result => pure result
  | none =>
      skipExtra extraP
      pure none

def cmdResponse (fuel : Nat) (endString : List UInt8) (canFailP extraP : Bool) :
    Prog (EspT B γ) Bool :=
  Prog.repeatUntil (responseRound endString canFailP extraP) fuel

/-- `match_tok` of any of the strings at which `cmd_responsev` gives up. -/
def matchSuspicious : Prog (Lex B) Bool :=
  either (matchTok (ascii "OK")) (either (matchTok (ascii "SEND OK"))
    (either (matchTok (ascii "ready")) (matchTok (ascii "BUSY"))))

/-- The matches one round of `cmd_responsev` tries. -/
def responsevTries (canFailP : Bool) (fmt : List UInt8) (args : VaList) :
    Prog (Lex B) (Option (Option Bool) × VaList) := do
  let (res, args) ← matchLinev fmt args
  if res then
    pure (some (some true), args)
  else if ← matchTok (ascii "ERROR") then
    if canFailP then
      pure (some (some false), args)
    else
      throw (.panic "fatal error: got an error\n")
  else if ← matchSuspicious then
    throw (.panic "suspicious end of command\n")
  else if ← matchBusy then
    pure (some none, args)
  else
    pure (none, args)

def cmdResponsev (canFailP extraP : Bool) (fmt : List UInt8) :
    Nat → VaList → Prog (EspT B γ) (Bool × VaList)
  | 0, _ => throw .outOfFuel
  | fuel + 1, args => do
      let (tried, args) ← onLex (responsevTries canFailP fmt args)
      match tried with
      | some (some res) => pure (res, args)
      | some none => cmdResponsev canFailP extraP fmt fuel args
      | none =>
          skipExtra extraP
          cmdResponsev canFailP extraP fmt fuel args

/-- The cells are the variables the arguments point to. -/
def cmdResponsef (fuel : Nat) (canFailP extraP : Bool) (fmt : List UInt8) (cells : List Cell) :
    Prog (EspT B γ) (Bool × List Cell) := do
  let (res, args) ← cmdResponsev canFailP extraP fmt fuel ⟨cells, 0⟩
  pure (res, args.cells)

/-- One round of the loop of `cmd_ack`. -/
def ackRound (handleOooMsg : Prog (EspT B γ) Unit) (cmd : List UInt8) :
    Prog (EspT B γ) (Option Bool) := do
  if ← onLex (matchLineOnly cmd) then
    pure (some true)
  else if ← onLex matchBlankLine then
    pure none
  else if ← onLex matchBusy then
    pure none
  else
    handleOooMsg
    pure none

def cmdAck (fuel : Nat) (handleOooMsg : Prog (EspT B γ) Unit) (cmd : List UInt8) :
    Prog (EspT B γ) Bool :=
  Prog.repeatUntil (ackRound handleOooMsg cmd) fuel

def doAtCmd (fuel : Nat) (handleOooMsg : Prog (EspT B γ) Unit) (cmd response : List UInt8)
    (extraP : Bool) : Prog (EspT B γ) Bool := do
  cmdPuts cmd
  if ← cmdAck fuel handleOooMsg cmd then
    cmdResponse fuel response false extraP
  else
    throw (.panic "error issuing cmd <%s>!\n")

def atCmd (fuel : Nat) (handleOooMsg : Prog (EspT B γ) Unit) (cmd response : List UInt8) :
    Prog (EspT B γ) Bool :=
  doAtCmd fuel handleOooMsg cmd response false

/-! ## Formatted commands -/

inductive FormatArg where
  | uint (value : UInt32)
  | str (text : List UInt8)

/-- The full text of a `printf` format with the conversions `%u` and `%s`. -/
def format : List UInt8 → List FormatArg → List UInt8
  | [], _ => []
  | 37 :: 117 :: fmt, .uint value :: args => Decimal.digits value.toNat ++ format fmt args
  | 37 :: 115 :: fmt, .str text :: args => text ++ format fmt args
  | f :: fmt, args => f :: format fmt args

/-- What `snprintf` leaves in a buffer of `size` bytes, without the NUL; it
returns a negative number for none of these formats. -/
def snprintf (size : Nat) (fmt : List UInt8) (args : List FormatArg) : List UInt8 :=
  (format fmt args).take (size - 1)

/-- `at_cmdv`, which waits for `OK`. -/
def atCmdv (fuel : Nat) (handleOooMsg : Prog (EspT B γ) Unit) (fmt : List UInt8)
    (args : List FormatArg) : Prog (EspT B γ) Bool :=
  atCmd fuel handleOooMsg (snprintf 512 fmt args) (ascii "OK")

/-- `cmd_reject_line`. -/
def cmdRejectLine {α : Type} : Prog (EspT B γ) α := do
  let (n, _) ← onLex (getNonblankLine lineBuf 1024)
  if n = 0 then
    throw (.panic "expected non-blank!\n")
  else
    throw (.panic "unexpected line: <%s>\n")

end

end Cs140e.Esp
