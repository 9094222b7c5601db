import Cs140e.Esp.Lex

/-!
# Parsing the output of the esp

A translation of `esp-parse.c` for any of the two lexers.  A plain `char` is
unsigned, as in the library that `Makefile.pi` builds; where it is signed, as in
that of `Makefile.unix`, `matchv` and `match_tok` compare it with the bytes of the
lexer as a negative number, and so a byte from 0x80 on never matches.  Every inner loop consumes a byte per round and so is
given as much fuel as there are bytes to come.  Strings are lists of bytes
without the terminating NUL; a buffer is a list that is written by index.
-/

namespace Cs140e.Esp

open Cs140e.Library

/-- The bytes of a string literal. -/
def ascii (text : String) : List UInt8 := text.toList.map fun c => UInt8.ofNat c.toNat

/-! ## Characters -/

def isEolCh (ch : UInt8) : Bool := ch == 13 || ch == 10

def isSpaceCh (ch : UInt8) : Bool := ch == 32 || ch == 9

def isdigit (ch : UInt8) : Bool := 48 ≤ ch && ch ≤ 57

def isalpha (ch : UInt8) : Bool := (65 ≤ ch && ch ≤ 90) || (97 ≤ ch && ch ≤ 122)

section

variable {B : Type} [Lexer B]

def isEol : Prog (Lex B) Bool := do pure (isEolCh (← lexPeek))

def isSpace : Prog (Lex B) Bool := do pure (isSpaceCh (← lexPeek))

/-- More rounds than there are bytes to come. -/
def lexFuel : Prog (Lex B) Nat := do
  let buffered ← lexNstream
  pure (buffered + (arriving (← get).h).length + 1)

/-- A call of `lex_getc` whose result is dropped. -/
def lexDropc : Prog (Lex B) Unit := do
  let _ ← lexGetc
  pure ()

/-! ## Blanks and ends of lines -/

def skipBlankSpace : Prog (Lex B) Unit := do
  let fuel ← lexFuel
  Prog.whileLoop isSpace lexDropc fuel

/-- The condition of the second loop of `match_eol`. -/
def eolBuffered : Prog (Lex B) Bool := do
  if (← lexNstream) ≠ 0 then isEol
  else pure false

def matchEol : Prog (Lex B) Bool := do
  let ck ← lexGetCkpt
  skipBlankSpace
  if ← isEol then
    lexDropc
    let fuel ← lexFuel
    Prog.whileLoop eolBuffered lexDropc fuel
    pure true
  else
    lexRestoreCkpt ck
    pure false

def matchBlankLine : Prog (Lex B) Bool := do
  let ck ← lexGetCkpt
  skipBlankSpace
  if ← matchEol then
    pure true
  else
    lexRestoreCkpt ck
    pure false

def skipBlankLines : Prog (Lex B) Unit := do
  let fuel ← lexFuel
  Prog.whileLoop matchBlankLine (pure ()) fuel

/-- The start of `match_tok` and `matchv`. -/
def skipLeading : Prog (Lex B) Unit := do
  skipBlankLines
  skipBlankSpace

/-! ## Lines, numbers and quoted strings -/

/-- `buf[i] = c`. -/
def poke {σ : Type} (buf : List UInt8) (i : Nat) (c : UInt8) : Prog σ (List UInt8) :=
  if i < buf.length then pure (buf.set i c)
  else throw (.undefined "write past the buffer")

/-- The loop of `get_nonblank_line`, with the rounds left. -/
def lineLoop : Nat → Nat → List UInt8 → Prog (Lex B) (Nat × List UInt8)
  | 0, i, buf => pure (i, buf)
  | rounds + 1, i, buf => do
      if ← matchEol then
        pure (i, buf)
      else
        let c ← lexGetc
        let buf ← poke buf i c
        lineLoop rounds (i + 1) buf

/-- The return value and the buffer. -/
def getNonblankLine (buf : List UInt8) (nbytes : Nat) : Prog (Lex B) (Nat × List UInt8) := do
  if ← matchBlankLine then
    pure (0, buf)
  else
    skipBlankSpace
    let (i, buf) ← lineLoop nbytes 0 buf
    if i = nbytes then
      throw (.panic "buffer too small nybtes=%d\n")
    else
      let buf ← poke buf i 0
      pure (i, buf)

/-- The loop of `match_uint`: the number and how many digits it has. -/
def uintLoop : Nat → UInt32 → Nat → Prog (Lex B) (UInt32 × Nat)
  | 0, _, _ => throw .outOfFuel
  | fuel + 1, x, i => do
      if isdigit (← lexPeek) then
        let c ← lexGetc
        uintLoop fuel (x * 10 + c.toUInt32 - 48) (i + 1)
      else
        pure (x, i)

/-- The return value and what is stored in `*x`. -/
def matchUint : Prog (Lex B) (Bool × UInt32) := do
  skipBlankSpace
  let fuel ← lexFuel
  let (x, i) ← uintLoop fuel 0 0
  pure (i ≠ 0, x)

/-- The loop of `match_literal_string`, with the rounds left. -/
def stringLoop : Nat → Nat → List UInt8 → Prog (Lex B) (List UInt8)
  | 0, _, _ => throw (.panic "malformed string, exceeded size: <%s>\n")
  | rounds + 1, i, out => do
      let c ← lexGetc
      if c = 34 then
        poke out i 0
      else
        let out ← poke out i c
        stringLoop rounds (i + 1) out

def matchLiteralString (out : List UInt8) (nbytes : Nat) : Prog (Lex B) (Bool × List UInt8) := do
  skipBlankSpace
  if (← lexPeek) ≠ 34 then
    pure (false, out)
  else
    lexDropc
    let out ← stringLoop nbytes 0 out
    pure (true, out)

/-! ## Tokens -/

def tokLoop : List UInt8 → Prog (Lex B) Bool
  | [] => pure true
  | p :: rest => do
      if p ≠ (← lexGetc) then pure false
      else tokLoop rest

/-- The token is followed by a letter although it ends in one. -/
def tokGoesOn (tok : List UInt8) : Prog (Lex B) Bool := do
  if isalpha (tok.getLastD 0) then
    pure (isalpha (← lexPeek))
  else
    pure false

def matchTok (tok : List UInt8) : Prog (Lex B) Bool := do
  let ckpt ← lexGetCkpt
  skipLeading
  Prog.assertThat (!tok.isEmpty) "*p"
  if ← tokLoop tok then
    if ← tokGoesOn tok then
      lexRestoreCkpt ckpt
      pure false
    else
      pure true
  else
    lexRestoreCkpt ckpt
    pure false

end

/-! ## Formats -/

/-- What a pointer in an argument list points to. -/
inductive Cell where
  | uint (value : UInt32)
  | str (buf : List UInt8)
  deriving DecidableEq, Repr

/-- The variables an argument list points to, and the next argument; the
cursor is shared between caller and callee. -/
structure VaList where
  cells : List Cell
  next : Nat
  deriving DecidableEq, Repr

namespace VaList

/-- Fetch the next argument. -/
def arg {σ : Type} (args : VaList) : Prog σ (Cell × VaList) :=
  match args.cells[args.next]? with
  | some cell => pure (cell, { args with next := args.next + 1 })
  | none => throw (.undefined "va_arg past the last argument")

/-- Store through the argument fetched last. -/
def store (args : VaList) (cell : Cell) : VaList :=
  { args with cells := args.cells.set (args.next - 1) cell }

end VaList

/-- Where the loop of `matchv` ends: at the end of the format or at `fail`. -/
structure Matchv where
  matched : Bool
  mustMatch : Bool
  args : VaList
  deriving DecidableEq, Repr

section

variable {B : Type} [Lexer B]

/-- The `switch` of `matchv`. -/
def matchConversion (conversion : UInt8) (args : VaList) : Prog (Lex B) (Bool × VaList) := do
  if conversion = 115 then
    let (cell, args) ← args.arg
    match cell with
    | .str s =>
        let (found, s) ← matchLiteralString s 32
        pure (found, args.store (.str s))
    | .uint _ => throw (.undefined "argument is no string")
  else if conversion = 117 then
    let (cell, args) ← args.arg
    match cell with
    | .uint _ =>
        let (found, u) ← matchUint
        pure (found, args.store (.uint u))
    | .str _ => throw (.undefined "argument is no number")
  else
    throw (.panic "illegal format string: <%s>\n")

/-- The loop of `matchv`; `first` says that the format is still at its start,
`percent` that it stands after a `%`. -/
def matchvLoop : List UInt8 → Bool → Bool → Bool → VaList → Prog (Lex B) Matchv
  | [], _, false, mustMatch, args => pure ⟨true, mustMatch, args⟩
  | [], _, true, _, _ => throw (.panic "illegal format string: <%s>\n")
  | f :: fmt, _, true, mustMatch, args => do
      let (found, args) ← matchConversion f args
      if found then
        matchvLoop fmt false false mustMatch args
      else
        pure ⟨false, mustMatch, args⟩
  | f :: fmt, first, false, mustMatch, args => do
      Prog.assertThat (!isEolCh f) "!is_eol_ch(*fmt)"
      if isEolCh (← lexPeek) then
        pure ⟨false, mustMatch, args⟩
      else if f ≠ 37 then
        if f ≠ 32 then
          skipBlankSpace
          if (← lexGetc) ≠ f then
            pure ⟨false, mustMatch, args⟩
          else
            matchvLoop fmt false false mustMatch args
        else
          matchvLoop fmt false false mustMatch args
      else
        matchvLoop fmt false true (mustMatch || !first) args

def matchv (fmt : List UInt8) (args : VaList) : Prog (Lex B) (Bool × VaList) := do
  let ckpt ← lexGetCkpt
  skipLeading
  let result ← matchvLoop fmt true false false args
  if result.matched then
    pure (true, result.args)
  else if result.mustMatch then
    throw (.panic "must match failed: malformed value for <%s>!\n")
  else
    lexRestoreCkpt ckpt
    pure (false, result.args)

def matchLinev (fmt : List UInt8) (args : VaList) : Prog (Lex B) (Bool × VaList) := do
  let (res, args) ← matchv fmt args
  if res then
    if ← matchEol then
      pure (true, args)
    else
      throw (.panic "did not match end of line\n")
  else
    pure (false, args)

/-- The cells are the variables the arguments point to. -/
def matchLine (fmt : List UInt8) (cells : List Cell) : Prog (Lex B) (Bool × List Cell) := do
  let (res, args) ← matchLinev fmt ⟨cells, 0⟩
  pure (res, args.cells)

/-- `match_line` without arguments. -/
def matchLineOnly (fmt : List UInt8) : Prog (Lex B) Bool := do
  let (res, _) ← matchLine fmt []
  pure res

/-- `match`. -/
def matchPart (fmt : List UInt8) (cells : List Cell) : Prog (Lex B) (Bool × List Cell) := do
  let (res, args) ← matchv fmt ⟨cells, 0⟩
  pure (res, args.cells)

end

end Cs140e.Esp
