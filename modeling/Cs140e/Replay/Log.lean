import Cs140e.Library.Numeral
import Cs140e.Library.Simulation

/-!
# The log of the replay lab and its two readers

A translation of `wr_log_byte` in `interpose.c`, of the reader in `log-util.c`
and of the reader in `pretty-print.c`.  The two files define `log_t` and the
functions up to `log_get_hex` alike; these stand here once.
-/

namespace Cs140e.Replay

open Cs140e.Library

def piOutput : UInt8 := 112

def unixOutput : UInt8 := 117

/-- `log_ent_t`. -/
structure LogEnt where
  sender : UInt8
  v : UInt8
  deriving DecidableEq, Repr

/-- `log_t`; the buffer of `read_file` may be longer than the file. -/
structure LogT where
  log : List UInt8
  nbytes : UInt32
  off : UInt32
  lineno : UInt32

/-! ## Writing -/

/-- The conversion `%.2x`. -/
def hex2 (b : UInt8) : List UInt8 :=
  let digits := numeral 16 b.toNat
  List.replicate (2 - digits.length) 48 ++ digits

/-- The state is what was written to the file. -/
def wrLogByte (ty b : UInt8) : Prog (List UInt8) Unit := do
  let buf := [ty] ++ asciiBytes ",0x" ++ hex2 b ++ asciiBytes "\n"
  modify fun file => file ++ buf.takeWhile (· ≠ 0)

/-! ## Reading characters -/

def logIsEol : Prog LogT Bool := do
  let l ← get
  pure (l.off == l.nbytes)

/-- `l->log[l->off]`. -/
def logAt : Prog LogT UInt8 := do
  let l ← get
  match l.log[l.off.toNat]? with
  | some c => pure c
  | none => throw (.undefined "l->log[l->off] behind the buffer")

def logGetc : Prog LogT UInt8 := do
  let l ← get
  Prog.assertThat (l.off < l.nbytes) "l->off < l->nbytes"
  let c ← logAt
  modify fun l => { l with off := l.off + 1 }
  pure c

def logPeek : Prog LogT UInt8 := do
  Prog.assertThat (!(← logIsEol)) "!log_is_eol(l)"
  logAt

def expTok (exp : UInt8) : Prog LogT Unit := do
  let got ← logGetc
  if exp ≠ got then throw (.panic "value mismatch, expected '%c', have '%c' (%d)\n")

def hex2int (ch : UInt8) : Prog LogT Nat :=
  if 48 ≤ ch ∧ ch ≤ 57 then pure (ch.toNat - 48)
  else if 65 ≤ ch ∧ ch ≤ 70 then pure (ch.toNat - 65 + 10)
  else if 97 ≤ ch ∧ ch ≤ 102 then pure (ch.toNat - 97 + 10)
  else throw (.panic "invalid char '%x', expected hex!\n")

def logGetHex : Prog LogT UInt8 := do
  expTok 48
  expTok 120
  let d1 ← logGetc
  let d0 ← logGetc
  let v := (← hex2int d1) * 16 + (← hex2int d0)
  Prog.assertThat (v ≤ 255) "v <= 255"
  pure (UInt8.ofNat v)

/-! ## Reading lines -/

/-- `log_readline` of `log-util.c`; `none` is the return value 0. -/
def LogUtil.logReadline : Prog LogT (Option LogEnt) := do
  if ← logIsEol then pure none
  else
    let op ← logGetc
    expTok 44
    let v ← logGetHex
    expTok 10
    pure (some ⟨op, v⟩)

namespace PrettyPrint

/-- The loop of `eat_line`; every round reads a byte. -/
def eatLoop : Nat → Bool → Prog LogT Unit
  | 0, _ => throw .outOfFuel
  | fuel + 1, inCommentP => do
      let c ← logGetc
      if c = 10 then pure ()
      else
        let inCommentP := inCommentP || c == 35
        if !inCommentP && !isspace c then
          throw (.panic "invalid character '%c', expected space or '#'\n")
        eatLoop fuel inCommentP

def eatLine : Prog LogT Unit := do
  eatLoop ((← get).nbytes.toNat + 1) false
  modify fun l => { l with lineno := l.lineno + 1 }

/-- `none` is the return value 0. -/
def logReadEnt : Prog LogT (Option LogEnt) := do
  if ← logIsEol then pure none
  else
    let op ← logGetc
    expTok 44
    let v ← logGetHex
    eatLine
    pure (some ⟨op, v⟩)

def logReadline : Prog LogT (Option LogEnt) := logReadEnt

end PrettyPrint

/-! ## Reading a file -/

/-- The loop of `log_parse_tuples` over its table. -/
def tuplesLoop (logReadline : Prog LogT (Option LogEnt)) :
    Nat → Nat → List LogEnt → Prog LogT (List LogEnt × Nat)
  | 0, _, _ => throw .outOfFuel
  | fuel + 1, i, e => do
      match ← logReadline with
      | none => pure (e, i)
      | some ent =>
          if e.length ≤ i then throw (.undefined "e[i] behind the table")
          Prog.assertThat (i ≤ (← get).nbytes.toNat) "i <= l.nbytes"
          tuplesLoop logReadline fuel (i + 1) (e.set i ent)

/-- `log_parse_tuples` of a file with the given `log_readline`.  `readFile` is
`read_file`: nothing, or a buffer and the number of bytes of the file. -/
def logParseTuples (logReadline : Prog LogT (Option LogEnt))
    (readFile : String → Option (List UInt8 × UInt32)) (name : String) :
    Outcome LogT (List LogEnt × Nat) :=
  match readFile name with
  | none => .error (.panic "cannot open <%s>\n") ⟨[], 0, 0, 0⟩
  | some (log, nbytes) =>
      tuplesLoop logReadline (nbytes.toNat + 1) 0
        (List.replicate (nbytes + 1).toNat ⟨0, 0⟩) ⟨log, nbytes, 0, 1⟩

def LogUtil.logParseTuples := Replay.logParseTuples LogUtil.logReadline

def PrettyPrint.logParseTuples := Replay.logParseTuples PrettyPrint.logReadline

end Cs140e.Replay
