import Cs140e.Libpi.Circular

/-!
# The two lexers of libesp

A translation of `esp-lex.c` and of the two implementations selected by
`LEX_IMPL`.  The device answers every call of `esp_has_data_timeout`; while it
has data, `esp_read` returns the next piece of it.  Waiting for a device that
never answers again is a blocked program.
-/

namespace Cs140e.Esp

open Cs140e.Library
open Cs140e.Libpi.Circular

/-! ## The device -/

/-- What one call of `esp_read` with a buffer of 1024 bytes returns. -/
structure Chunk where
  bytes : List UInt8
  nonempty : bytes ≠ []
  fits : bytes.length ≤ 1024

/-- The next answers of `esp_has_data_timeout`: a no, or a yes until the data
is read. -/
inductive Poll where
  | quiet
  | data (chunk : Chunk)

/-- The bytes the device is going to send. -/
def Poll.bytes : Poll → List UInt8
  | .quiet => []
  | .data chunk => chunk.bytes

def arriving (h : List Poll) : List UInt8 := h.flatMap Poll.bytes

@[simp]
theorem arriving_nil : arriving [] = [] := rfl

@[simp]
theorem arriving_quiet (h : List Poll) : arriving (.quiet :: h) = arriving h := rfl

@[simp]
theorem arriving_data (chunk : Chunk) (h : List Poll) :
    arriving (.data chunk :: h) = chunk.bytes ++ arriving h := rfl

/-- `lex_t`: a buffer and the handle of the device. -/
structure Lex (B : Type) where
  buf : B
  h : List Poll

section

variable {B : Type}

def espHasDataTimeout : Prog (Lex B) Bool := fun l =>
  match l.h with
  | [] => .ok false l
  | .quiet :: rest => .ok false { l with h := rest }
  | .data _ :: _ => .ok true l

/-- The empty list is the return value 0. -/
def espRead : Prog (Lex B) (List UInt8) := fun l =>
  match l.h with
  | [] => .ok [] l
  | .quiet :: rest => .ok [] { l with h := rest }
  | .data chunk :: rest => .ok chunk.bytes { l with h := rest }

/-- The answers left when the device has data again. -/
def skipQuiet? : List Poll → Option (List Poll)
  | [] => none
  | .quiet :: rest => skipQuiet? rest
  | .data chunk :: rest => some (.data chunk :: rest)

/-- The loop around `esp_has_data_timeout` at the start of `lex_readin`. -/
def waitForData : Prog (Lex B) Unit := fun l =>
  match skipQuiet? l.h with
  | some rest => .ok () { l with h := rest }
  | none => .error .blocked { l with h := [] }

end

/-! ## Reading in -/

/-- What `esp-lex-simple.h` and `esp-lex-circ.h` define. -/
class LexBuf (B : Type) where
  Ckpt : Type
  lexEmpty : Prog B Bool
  lexNstream : Prog B Nat
  lexPushN : List UInt8 → Prog B Unit
  lexGetCkpt : Prog B Ckpt
  lexRestoreCkpt : Ckpt → Prog B Unit

export LexBuf (Ckpt)

section

variable {B : Type} [LexBuf B]

def onBuf {α : Type} (program : Prog B α) : Prog (Lex B) α :=
  Prog.onPart Lex.buf (fun buf l => { l with buf := buf }) program

def lexEmpty : Prog (Lex B) Bool := onBuf LexBuf.lexEmpty

def lexNstream : Prog (Lex B) Nat := onBuf LexBuf.lexNstream

def lexPushN (bytes : List UInt8) : Prog (Lex B) Unit := onBuf (LexBuf.lexPushN bytes)

def lexGetCkpt : Prog (Lex B) (Ckpt B) := onBuf LexBuf.lexGetCkpt

def lexRestoreCkpt (ckpt : Ckpt B) : Prog (Lex B) Unit := onBuf (LexBuf.lexRestoreCkpt ckpt)

/-- The `do` loop of `lex_readin`; every round reads a piece of the data. -/
def readBurst : Nat → Nat → Prog (Lex B) Nat
  | 0, _ => throw .outOfFuel
  | fuel + 1, nbytes => do
      let buf ← espRead
      if buf.length = 0 then
        throw (.panic "server_read failed: %d\n")
      lexPushN buf
      Prog.assertThat ((← lexNstream) == nbytes + buf.length) "lex_nstream(l) == nbytes"
      if ← espHasDataTimeout then
        readBurst fuel (nbytes + buf.length)
      else
        pure (nbytes + buf.length)

def lexReadin : Prog (Lex B) Nat := do
  Prog.assertThat (← lexEmpty) "lex_empty(l)"
  Prog.assertThat ((← lexNstream) == 0) "lex_nstream(l) == 0"
  waitForData
  readBurst (← get).h.length 0

/-- The start of every `lex_getc` and `lex_peek`. -/
def lexRefill : Prog (Lex B) Unit := do
  if ← lexEmpty then
    let _ ← lexReadin
  Prog.assertThat (!(← lexEmpty)) "!lex_empty(l)"

end

/-- A selected implementation. -/
class Lexer (B : Type) extends LexBuf B where
  lexGetc : Prog (Lex B) UInt8
  lexPeek : Prog (Lex B) UInt8

section

variable {B : Type} [Lexer B]

def lexGetc : Prog (Lex B) UInt8 := Lexer.lexGetc

def lexPeek : Prog (Lex B) UInt8 := Lexer.lexPeek

end

/-! ## `LEX_SIMPLE` -/

def lexMaxbuf : Nat := 1024 * 1024

/-- `lex_t` of `esp-lex-simple.h`; the length of `stream` is its `n`. -/
structure LexSimple where
  pos : Nat
  stream : List UInt8
  deriving DecidableEq, Repr

namespace LexSimple

def n (l : LexSimple) : Nat := l.stream.length

def empty : Prog LexSimple Bool := do
  let l ← get
  Prog.assertThat (l.pos ≤ l.n) "l->pos <= l->n"
  pure (l.pos == l.n)

def nstream : Prog LexSimple Nat := do
  let l ← get
  Prog.assertThat (l.pos ≤ l.n) "l->pos <= l->n"
  pure (l.n - l.pos)

def pushN (bytes : List UInt8) : Prog LexSimple Unit := do
  Prog.assertThat (bytes.length > 0) "n>0"
  Prog.assertThat ((← get).n + bytes.length < lexMaxbuf) "(l->n+n) < LEX_MAXBUF"
  modify fun l => { l with stream := l.stream ++ bytes }

instance : LexBuf LexSimple where
  Ckpt := Nat
  lexEmpty := empty
  lexNstream := nstream
  lexPushN := pushN
  lexGetCkpt := do pure (← get).pos
  lexRestoreCkpt := fun pos => modify fun l => { l with pos := pos }

/-- `l->stream[l->pos]`. -/
def current : Prog LexSimple UInt8 := do
  let l ← get
  match l.stream[l.pos]? with
  | some c => pure c
  | none => throw (.undefined "read past the input")

def getc : Prog (Lex LexSimple) UInt8 := do
  lexRefill
  let c ← onBuf current
  onBuf (modify fun l => { l with pos := l.pos + 1 })
  pure c

def peek : Prog (Lex LexSimple) UInt8 := do
  lexRefill
  onBuf current

instance : Lexer LexSimple where
  lexGetc := getc
  lexPeek := peek

/-- After `lex_init`. -/
def init : LexSimple := ⟨0, []⟩

end LexSimple

/-! ## `LEX_CIRC` -/

def cqN : Nat := 1024

/-- `lex_t` of `esp-lex-circ.h`; `n` counts the calls of `lex_getc`. -/
structure LexCirc where
  tail : Nat
  n : Nat
  stream : Cq cqN

/-- `lex_ckpt_t` of `esp-lex-circ.h`; nothing writes or reads its `n`. -/
structure CircCkpt where
  tail : Nat
  tail_lt : tail < cqN

namespace LexCirc

def onStream {α : Type} (program : Prog (Cq cqN) α) : Prog LexCirc α :=
  Prog.onPart LexCirc.stream (fun stream l => { l with stream := stream }) program

def pushN (bytes : List UInt8) : Prog LexCirc Unit := do
  if !(← onStream (cqPushN bytes)) then
    throw (.panic "push failed!\n")

instance : LexBuf LexCirc where
  Ckpt := CircCkpt
  lexEmpty := do pure (cqEmpty (← get).stream)
  lexNstream := do pure (cqNelem (← get).stream)
  lexPushN := pushN
  lexGetCkpt := do
    let l ← get
    pure ⟨l.stream.tail, l.stream.tail_lt⟩
  lexRestoreCkpt := fun ckpt => onStream (modify fun c => c.setTail ckpt.tail ckpt.tail_lt)

def getc : Prog (Lex LexCirc) UInt8 := do
  onBuf (modify fun l => { l with n := unsigned (l.n + 1) })
  lexRefill
  onBuf (onStream cqPop)

def peek : Prog (Lex LexCirc) UInt8 := do
  lexRefill
  match ← onBuf (onStream cqPeek) with
  | some uc => pure uc
  | none => throw (.panic "impossible")

instance : Lexer LexCirc where
  lexGetc := getc
  lexPeek := peek

/-- After `lex_init`, whose `cq_init` passes its checks. -/
def init : LexCirc where
  tail := 0
  n := 0
  stream := Cq.zeroed (by decide) true

end LexCirc

end Cs140e.Esp
