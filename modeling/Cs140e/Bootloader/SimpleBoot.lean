import Cs140e.Library.LittleEndian
import Cs140e.Library.Loop
import Cs140e.Library.Numeral

/-!
# The two ends of the bootloader protocol

A translation of `send-recv.c` and of the parts of `simple-boot.c` and
`bootloader.c` that are given in the lab.  The unix side reads a tty that
delivers bytes until a read times out; the pi writes bytes to its uart.
-/

namespace Cs140e.Bootloader

open Cs140e.Library

/-! ## `simple-boot.h` -/

def armbase : UInt32 := 0x8000

def bootStart : UInt32 := 0xFFFF0000

def getProgInfo : UInt32 := 0x11112222

def putProgInfo : UInt32 := 0x33334444

def getCode : UInt32 := 0x55556666

def putCode : UInt32 := 0x77778888

def bootSuccess : UInt32 := 0x9999AAAA

def bootError : UInt32 := 0xBBBBCCCC

def printString : UInt32 := 0xDDDDEEEE

def badCodeAddr : UInt32 := 0xdeadbeef

def badCodeCksum : UInt32 := 0xfeedface

/-! ## The unix side -/

/-- What the tty still delivers and what was written with `output`. -/
structure UnixEnd where
  tty : List UInt8
  out : List UInt8
  deriving DecidableEq, Repr

def timedOut : Stop :=
  .panic "pi-install: read() timed-out: pi not listening --- power-cycle?\n"

def getByte : Prog UnixEnd UInt8 := fun fd =>
  match fd.tty with
  | [] => .error timedOut fd
  | b :: rest => .ok b { fd with tty := rest }

def getUint32 : Prog UnixEnd UInt32 := do
  let u := (← getByte).toUInt32
  let u := u ||| (← getByte).toUInt32 <<< 8
  let u := u ||| (← getByte).toUInt32 <<< 16
  let u := u ||| (← getByte).toUInt32 <<< 24
  pure u

def output (text : List UInt8) : Prog UnixEnd Unit :=
  modify fun fd => { fd with out := fd.out ++ text }

/-- The `for` loop of `get_op`. -/
def echoBytes : Nat → Prog UnixEnd Unit
  | 0 => pure ()
  | nbytes + 1 => do
      output [← getByte]
      echoBytes nbytes

/-- One call of `get_op`; `none` stands for the recursive call at its end. -/
def getOpRound : Prog UnixEnd (Option UInt32) := do
  let op ← getUint32
  if op ≠ printString then pure (some op)
  else
    let nbytes ← getUint32
    Prog.assertThat (nbytes < 512) "pi sent a suspiciously long string"
    output (asciiBytes "pi sent print: <")
    echoBytes nbytes.toNat
    output (asciiBytes ">\n")
    pure none

/-- Every recursive call is made after eight bytes at least. -/
def getOp : Prog UnixEnd UInt32 := do Prog.repeatUntil getOpRound ((← get).tty.length + 1)

/-- Step 0 of `simple_boot`. -/
def drainRound : Prog UnixEnd (Option Unit) := do
  let op ← getOp
  if op = getProgInfo then pure (some ())
  else
    output (asciiBytes "expected initial GET_PROG_INFO, got <" ++ numeral 16 op.toNat ++
      asciiBytes ">: discarding.\n")
    pure none

/-- Every round reads four bytes at least. -/
def drain : Prog UnixEnd Unit := do Prog.repeatUntil drainRound ((← get).tty.length + 1)

/-! ## The pi side -/

/-- The bytes given to `uart_putc` so far. -/
abbrev Uart := List UInt8

def putByte (uc : UInt8) : Prog Uart Unit := modify fun sent => sent ++ [uc]

def putUint (u : UInt32) : Prog Uart Unit := do
  putByte ((u >>> 0) &&& 0xff).toUInt8
  putByte ((u >>> 8) &&& 0xff).toUInt8
  putByte ((u >>> 16) &&& 0xff).toUInt8
  putByte ((u >>> 24) &&& 0xff).toUInt8

/-- The first loop of `putk` over the memory at `msg`. -/
def lameStrlen : List UInt8 → Nat → Prog Uart Nat
  | [], _ => throw (.undefined "msg[n] behind the string")
  | c :: msg, n => if c = 0 then pure n else lameStrlen msg (n + 1)

/-- The second loop of `putk`. -/
def putBytes : List UInt8 → Prog Uart Unit
  | [] => throw (.undefined "msg[n] behind the string")
  | c :: msg =>
      if c = 0 then pure ()
      else do
        putByte c
        putBytes msg

def putk (msg : List UInt8) : Prog Uart Unit := do
  putUint printString
  let n ← lameStrlen msg 0
  putUint (UInt32.ofNat n)
  putBytes msg

/-- Each round tells whether data came within the 300 ms after the message;
when it runs out of rounds the pi still waits. -/
def waitForData : List Bool → Prog Uart Unit
  | [] => throw .blocked
  | hasData :: rounds => do
      putUint getProgInfo
      if hasData then pure ()
      else waitForData rounds

end Cs140e.Bootloader
