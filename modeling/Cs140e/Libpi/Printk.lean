import Cs140e.Library.Buffer
import Cs140e.Library.Numeral

/-!
# Formatted printing

A translation of `va-printk.c` without floating point.  A string in memory is
the list of its bytes with its NUL and what lies behind it.
-/

namespace Cs140e.Libpi.Printk

open Cs140e.Library
open Cs140e.Library.Buffer

def isdigit (c : UInt8) : Bool := 48 ≤ c && c ≤ 57

/-! ## `emit` -/

/-- `for(; len < width; len++) *p++ = ' ';` for the rounds that are left. -/
def padLoop : Nat → Nat → Prog (Buffer UInt8) Nat
  | 0, p => pure p
  | left + 1, p => do
      store p 32
      padLoop left (p + 1)

def pad (p base width : Nat) : Prog (Buffer UInt8) Nat := do
  let len := p - base
  let p ← padLoop (width - len) p
  store p 0
  pure p

/-- `for(p--; p >= start; p--) *dst++ = *p;` -/
def reverseLoop (buf : Buffer UInt8) (start : Nat) : Nat → Nat → Prog (Buffer UInt8) Nat
  | 0, dst => pure dst
  | p + 1, dst =>
      if start ≤ p then do
        let c ← fetch buf p
        store dst c
        reverseLoop buf start p (dst + 1)
      else pure dst

/-- `reverse` from the buffer `buf` to the array that is the state. -/
def reverse (n p start : Nat) (buf : Buffer UInt8) : Prog (Buffer UInt8) Unit := do
  let len := p - start + 1
  let start := if len > n then start + (len - n) else start
  let dst ← reverseLoop buf start p 0
  store dst 0

/-- `do { *p++ = digits[u % base]; } while(u /= base);` -/
def digitLoop (digits : List UInt8) (base : UInt32) :
    Nat → UInt32 → Nat → Prog (Buffer UInt8) Nat
  | 0, _, _ => throw .outOfFuel
  | fuel + 1, u, p => do
      match digits[(u % base).toNat]? with
      | none => throw (.undefined "a digit behind the table")
      | some c =>
          store p c
          let u := u / base
          if u ≠ 0 then digitLoop digits base fuel u (p + 1)
          else pure (p + 1)

/-- The `switch` of `emit`; a number has at most 32 digits. -/
def emitDigits (base : Nat) (val : Int32) (signedP : Bool) : Prog (Buffer UInt8) Nat :=
  if base = 10 then do
    let negP := val < 0 && signedP
    let u := if negP then (-val).toUInt32 else val.toUInt32
    let p ← digitLoop (asciiBytes "0123456789") 10 32 u 0
    if negP then
      store p 45
      pure (p + 1)
    else pure p
  else if base = 16 then digitLoop (asciiBytes "0123456789abcdef") 16 32 val.toUInt32 0
  else if base = 8 then do
    store 0 val.toUInt32.toUInt8
    pure 1
  else if base = 2 then digitLoop (asciiBytes "01") 2 32 val.toUInt32 0
  else throw (.panic "0")

/-- `emit`; the state is the array at `dst`. -/
def emit (base n : Nat) (val : Int32) (width : Nat) (signedP : Bool) :
    Prog (Buffer UInt8) Unit := do
  let width := if width > n then n - 1 else width
  let (p, buf) ← Prog.locally (uninit 64) do
    let p ← emitDigits base val signedP
    pad p 0 width
  reverse n p 0 buf

/-! ## `va_printk` -/

/-- An argument: a number, or the memory at a string. -/
inductive Arg where
  | int (val : Int32)
  | str (memory : List UInt8)
  deriving DecidableEq, Repr

def vaInt : List Arg → Prog (Buffer UInt8) (Int32 × List Arg)
  | .int val :: args => pure (val, args)
  | _ => throw (.undefined "va_arg(args, int)")

def vaStr : List Arg → Prog (Buffer UInt8) (List UInt8 × List Arg)
  | .str memory :: args => pure (memory, args)
  | _ => throw (.undefined "va_arg(args, char *)")

/-- `*fmt`. -/
def charAt : List UInt8 → Prog (Buffer UInt8) UInt8
  | [] => throw (.undefined "*fmt behind the format")
  | c :: _ => pure c

def parseWidth : List UInt8 → UInt32 → Prog (Buffer UInt8) (UInt32 × List UInt8)
  | [], _ => throw (.undefined "*fmt behind the format")
  | c :: fmt, width =>
      if isdigit c then parseWidth fmt (width * 10 + c.toUInt32 - 48)
      else pure (width, c :: fmt)

/-- The number in the array `num`. -/
def emitNum (base width : Nat) (signedP : Bool) (args : List Arg) :
    Prog (Buffer UInt8) (Buffer UInt8 × List Arg) := do
  let (val, args) ← vaInt args
  let (_, num) ← Prog.locally (uninit 128) (emit base 128 val width signedP)
  pure (num, args)

/-- The `switch` of `va_printk`: the string to copy and the arguments that are left. -/
def convert (spec : UInt8) (width : Nat) (args : List Arg) :
    Prog (Buffer UInt8) (Buffer UInt8 × List Arg) :=
  if spec = 102 then throw (.panic "float not enabled!!!")
  else if spec = 100 then emitNum 10 width true args
  else if spec = 117 then emitNum 10 width false args
  else if spec = 112 ∨ spec = 120 then emitNum 16 width false args
  else if spec = 98 then emitNum 2 width false args
  else if spec = 115 then do
    let (memory, args) ← vaStr args
    pure (memory.map some, args)
  else if spec = 99 then emitNum 8 width false args
  else throw (.panic "printk: not handling specifier '%c'\n")

/-- `for(; p < e && *s; ) *p++ = *s++;` -/
def copyLoop (e : Nat) : Buffer UInt8 → Nat → Prog (Buffer UInt8) Nat
  | [], p => if p < e then throw (.undefined "*s behind the string") else pure p
  | none :: _, p => if p < e then throw (.undefined "*s is not set") else pure p
  | some c :: s, p =>
      if p < e ∧ c ≠ 0 then do
        store p c
        copyLoop e s (p + 1)
      else pure p

/-- The loop of `va_printk`; every round reads a character of the format. -/
def vaPrintkLoop (e : Nat) : Nat → List UInt8 → List Arg → Nat → Prog (Buffer UInt8) Nat
  | 0, _, _, _ => throw .outOfFuel
  | fuel + 1, fmt, args, p => do
      let c ← charAt fmt
      if c ≠ 0 ∧ p < e then
        if c ≠ 37 then
          store p c
          vaPrintkLoop e fuel (fmt.drop 1) args (p + 1)
        else if (← charAt (fmt.drop 1)) = 37 then
          store p c
          vaPrintkLoop e fuel (fmt.drop 2) args (p + 1)
        else
          let (width, fmt) ← parseWidth (fmt.drop 1) 0
          Prog.assertThat (width < 32) "width < 32"
          let spec ← charAt fmt
          let (s, args) ← convert spec width.toNat args
          let p ← copyLoop e s p
          vaPrintkLoop e fuel (fmt.drop 1) args p
      else pure p

/-- `va_printk`; the state is the array of `n` bytes at `buf`. -/
def vaPrintk (n : Nat) (fmt : List UInt8) (args : List Arg) : Prog (Buffer UInt8) Nat := do
  let e := n - 1
  store 0 0
  let p ← vaPrintkLoop e (fmt.length + 1) fmt args 0
  store p 0
  pure (p + 1)

end Cs140e.Libpi.Printk
