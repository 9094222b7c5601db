import Cs140e.Bootloader.SimpleBoot
import Cs140e.Replay.Log

/-!
# Parsing the trace of a boot

A translation of the second half of `pretty-print.c`: reading words and
buffers from the lines of a log, and `parse_trace`.  What it prints is left out.
-/

namespace Cs140e.Replay.PrettyPrint

open Cs140e.Library
open Cs140e.Bootloader

/-! ## Words and buffers -/

/-- `read_ent_op`; at the end of the log it goes on with the values that
`log_read_ent` did not set. -/
def readEntOp (opExp : UInt8) : Prog LogT UInt8 := do
  match ← logReadEnt with
  | none => throw (.undefined "op and v are not set")
  | some ent =>
      if opExp ≠ ent.sender then throw (.panic "unexpected op: exp '%c' have '%c'\n")
      pure ent.v

/-- `none` is the return value 0. -/
def logReadEnt32 (op : UInt8) : Prog LogT (Option UInt32) := do
  if ← logIsEol then pure none
  else
    let v0 ← readEntOp op
    let v1 ← readEntOp op
    let v2 ← readEntOp op
    let v3 ← readEntOp op
    pure (some (v3.toUInt32 <<< 24 ||| v2.toUInt32 <<< 16 ||| v1.toUInt32 <<< 8 ||| v0.toUInt32))

def logEnt32Exp (op : UInt8) : Prog LogT UInt32 := do
  match ← logReadEnt32 op with
  | none => throw (.panic "unexpected end of file\n")
  | some v => pure v

def logPeek32 (op : UInt8) : Prog LogT UInt32 := do
  let ckpt ← get
  let v ← logEnt32Exp op
  set ckpt
  pure v

def logRead32 : Prog LogT (Option UInt32) := do
  if ← logIsEol then pure none
  else
    let op ← logPeek
    logReadEnt32 op

/-- The loop of `log_readN`: the bytes still to read, the index and the buffer. -/
def readNLoop (op : UInt8) : Nat → Nat → List UInt8 → Prog LogT (List UInt8)
  | 0, _, p => pure p
  | left + 1, i, p => do
      match ← logReadEnt with
      | none => throw (.panic "impossible\n")
      | some ent =>
          if p.length ≤ i then throw (.undefined "p[i] behind the buffer")
          if op ≠ ent.sender then throw (.panic "impossible\n")
          readNLoop op left (i + 1) (p.set i ent.v)

def logReadN (op : UInt8) (n : UInt32) : Prog LogT (List UInt8) :=
  readNLoop op n.toNat 0 (List.replicate (n + 1).toNat 0)

/-- The loop of `log_readall`. -/
def countLoop (op : UInt8) : Nat → Nat → Prog LogT Nat
  | 0, _ => throw .outOfFuel
  | fuel + 1, n => do
      match ← logReadEnt with
      | none => pure n
      | some ent =>
          if op ≠ ent.sender then throw (.panic "impossible\n")
          countLoop op fuel (n + 1)

def logReadall (op : UInt8) : Prog LogT (List UInt8 × UInt32) := do
  let ckpt ← get
  let n ← countLoop op (ckpt.nbytes.toNat + 1) 0
  if !(← logIsEol) then throw (.panic "pi output did not consume log??\n")
  set ckpt
  let p ← logReadN op (UInt32.ofNat n)
  pure (p, UInt32.ofNat n)

/-! ## Messages -/

def badDataOp : UInt32 := 1

/-- `union msg_types`, by the member stored last. -/
inductive MsgTypes where
  | badData (badData : UInt8)
  | bootSuccess (output : List UInt8) (nbytes : UInt32)
  | progInfo (armbase nbytes crc32 : UInt32)
  | getCode (crc32 : UInt32)
  | putCode (code : List UInt8) (nbytes : UInt32)
  deriving DecidableEq, Repr

/-- `struct msg`. -/
structure Msg where
  op : UInt32
  sender : UInt8
  u : MsgTypes
  deriving DecidableEq, Repr

/-- An entry of the table that `calloc` returns. -/
def Msg.zeroed : Msg := ⟨0, 0, .badData 0⟩

def msgAt (m : List Msg) (i : Nat) : Prog LogT Msg :=
  match m[i]? with
  | some mi => pure mi
  | none => throw (.undefined "m[i] behind the table")

def opCheck (op : UInt32) : Prog LogT Unit :=
  if op ∈ [bootStart, getProgInfo, putProgInfo, getCode, putCode, bootSuccess, bootError,
      printString, badCodeAddr, badCodeCksum] then pure ()
  else throw (.panic "invalid op=<%d>\n")

/-- The first loop of `parse_trace`. -/
def badDataLoop : Nat → Nat → List Msg → Prog LogT (List Msg)
  | 0, _, _ => throw .outOfFuel
  | fuel + 1, i, m => do
      if (← logPeek32 piOutput) ≠ getProgInfo then
        let mi ← msgAt m i
        let x ← readEntOp piOutput
        badDataLoop fuel (i + 1)
          (m.set i { mi with op := badDataOp, sender := piOutput, u := .badData x })
      else pure m

/-- The `switch` of `parse_trace` on the entry whose `op` is set, with the
number of code bytes known so far. -/
def parseBody (msgOp nbytes : UInt32) (mi : Msg) : Prog LogT (Msg × UInt32) :=
  if msgOp = getProgInfo ∨ msgOp = bootError ∨ msgOp = badCodeAddr ∨ msgOp = badCodeCksum then
    pure ({ mi with sender := piOutput }, nbytes)
  else if msgOp = getCode then do
    let crc32 ← logEnt32Exp piOutput
    pure ({ mi with sender := piOutput, u := .getCode crc32 }, nbytes)
  else if msgOp = bootSuccess then do
    let (output, size) ← logReadall piOutput
    pure ({ mi with sender := piOutput, u := .bootSuccess output size }, nbytes)
  else if msgOp = putProgInfo then do
    let armbase ← logEnt32Exp unixOutput
    let pNbytes ← logEnt32Exp unixOutput
    let crc32 ← logEnt32Exp unixOutput
    if nbytes ≠ 0 then
      Prog.assertThat (nbytes == pNbytes) "nbytes == p->nbytes"
      pure ({ mi with sender := unixOutput, u := .progInfo armbase pNbytes crc32 }, nbytes)
    else pure ({ mi with sender := unixOutput, u := .progInfo armbase pNbytes crc32 }, pNbytes)
  else if msgOp = putCode then do
    Prog.assertThat (nbytes != 0) "nbytes"
    let code ← logReadN unixOutput nbytes
    pure ({ mi with sender := unixOutput, u := .putCode code nbytes }, nbytes)
  else if msgOp = printString then throw (.panic "not handling\n")
  else throw (.panic "impossible\n")

/-- The second loop of `parse_trace`. -/
def msgLoop : Nat → Nat → UInt32 → List Msg → Prog LogT (List Msg × Nat)
  | 0, _, _, _ => throw .outOfFuel
  | fuel + 1, i, nbytes, m => do
      match ← logRead32 with
      | none => pure (m, i)
      | some msgOp =>
          opCheck msgOp
          let mi ← msgAt m i
          let (mi, nbytes) ← parseBody msgOp nbytes { mi with op := msgOp }
          msgLoop fuel (i + 1) nbytes (m.set i mi)

/-- `parse_trace`: the table and the number of messages. -/
def parseTrace : Prog LogT (List Msg × Nat) := do
  let fuel := (← get).nbytes.toNat + 1
  let m := List.replicate (← get).nbytes.toNat Msg.zeroed
  let m ← badDataLoop fuel 0 m
  msgLoop fuel 0 0 m

end Cs140e.Replay.PrettyPrint
