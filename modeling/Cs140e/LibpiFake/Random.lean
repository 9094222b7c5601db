import Cs140e.Library.Lagged
import Mathlib.Algebra.Group.Nat.Defs

/-!
# The random numbers of the fake pi

`pi-random.c`.  Memory is a function from word numbers to words, and pointers to
words are word numbers.  Signed sums wrap, and a `long` has 64 bits.  A null
pointer argument is a flag.
-/

namespace Cs140e.LibpiFake.Random

abbrev Words := Nat → BitVec 32

def maxTypes : Nat := 5

/-- `random_poly_info`. -/
def seps : List Nat := [0, 3, 1, 3, 1]
def degrees : List Nat := [0, 7, 15, 31, 63]

def break0 : Nat := 8
def break1 : Nat := 32
def break2 : Nat := 64
def break3 : Nat := 128
def break4 : Nat := 256

structure PiRandomData where
  fptr : Nat
  rptr : Nat
  state : Nat
  randType : BitVec 32
  randDeg : Nat
  randSep : Nat
  endPtr : Nat
  deriving DecidableEq, Repr

/-- The memory and the structure that `buf` points to. -/
structure World where
  words : Words
  data : PiRandomData

def World.store (s : World) (p : Nat) (word : BitVec 32) : World :=
  { s with words := Function.update s.words p word }

/-! ## `pi_random_r` -/

/-- `((state[0] * 1103515245) + 12345) & 0x7fffffff` -/
def congruential (word : BitVec 32) : BitVec 32 :=
  (word * 1103515245#32 + 12345#32) &&& 0x7FFFFFFF#32

/-- `(val >> 1) & 0x7fffffff`: the least random bit is chucked. -/
def chucked (val : BitVec 32) : BitVec 32 := val.sshiftRight 1 &&& 0x7FFFFFFF#32

/-- The pointers one slot further. -/
def PiRandomData.turn (data : PiRandomData) : PiRandomData :=
  let fptr := data.fptr + 1
  if data.endPtr ≤ fptr then { data with fptr := data.state, rptr := data.rptr + 1 }
  else
    let rptr := data.rptr + 1
    if data.endPtr ≤ rptr then { data with fptr := fptr, rptr := data.state }
    else { data with fptr := fptr, rptr := rptr }

/-- The body of `pi_random_r`. -/
def draw (s : World) : BitVec 32 × World :=
  if s.data.randType = 0#32 then
    let val := congruential (s.words s.data.state)
    (val, s.store s.data.state val)
  else
    let val := s.words s.data.fptr + s.words s.data.rptr
    (chucked val, { s.store s.data.fptr val with data := s.data.turn })

/-- The return code with what is stored through `result`. -/
def piRandomR (bufNull resultNull : Bool) (s : World) : (Int × Option (BitVec 32)) × World :=
  if bufNull || resultNull then ((-1, none), s)
  else
    let (result, s) := draw s
    ((0, some result), s)

/-! ## `pi_srandom_r` -/

/-- `word = 16807 * word % 2147483647`, in the steps that do not overflow 31 bits. -/
def nextSeed (word : Int) : Int :=
  let hi := word.tdiv 127773
  let lo := word.tmod 127773
  let word := 16807 * lo - 2836 * hi
  if word < 0 then word + 2147483647 else word

/-- `n` rounds of the loop that fills the table behind `dst`. -/
def fill (words : Words) (dst : Nat) (word : Int) : Nat → Words
  | 0 => words
  | n + 1 =>
      let word := nextSeed word
      fill (Function.update words (dst + 1) (BitVec.ofInt 32 word)) (dst + 1) word n

/-- `while (--kc >= 0) pi_random_r(buf, &discard);` -/
def discard (s : World) : Nat → World
  | 0 => s
  | n + 1 => discard (piRandomR false false s).2 n

def piSrandomR (seed : BitVec 32) (bufNull : Bool) (s : World) : Int × World :=
  if bufNull then (-1, s)
  else if maxTypes ≤ s.data.randType.toNat then (-1, s)
  else
    let seed := if seed = 0#32 then 1#32 else seed
    let s := s.store s.data.state seed
    if s.data.randType = 0#32 then (0, s)
    else
      let kc := s.data.randDeg
      let words := fill s.words s.data.state seed.toNat (kc - 1)
      let data := { s.data with fptr := s.data.state + s.data.randSep, rptr := s.data.state }
      (0, discard { words := words, data := data } (kc * 10))

/-! ## `pi_initstate_r` and `pi_setstate_r` -/

/-- The generator for `n` bytes of state. -/
def typeFor (n : Nat) : Option Nat :=
  if break3 ≤ n then if n < break4 then some 3 else some 4
  else if n < break1 then if n < break0 then none else some 0
  else if n < break2 then some 1 else some 2

/-- The word before the table: the place of the rear pointer and the type. -/
def header (data : PiRandomData) : BitVec 32 :=
  if data.randType = 0#32 then 0#32
  else BitVec.ofNat 32 ((data.rptr - data.state) * maxTypes) + data.randType

def piInitstateR (seed : BitVec 32) (argState n : Nat) (bufNull : Bool) (s : World) :
    Int × World :=
  if bufNull then (-1, s)
  else
    match typeFor n with
    | none => (-1, s)
    | some type =>
        let degree := degrees.getD type 0
        let state := argState + 1
        let data := { s.data with
          randType := BitVec.ofNat 32 type, randSep := seps.getD type 0, randDeg := degree,
          endPtr := state + degree, state := state }
        let s := (piSrandomR seed false { s with data := data }).2
        (0, s.store argState (header s.data))

def piSetstateR (argState : Option Nat) (bufNull : Bool) (s : World) : Int × World :=
  match argState with
  | none => (-1, s)
  | some argState =>
      if bufNull then (-1, s)
      else
        let newState := argState + 1
        let s := s.store (s.data.state - 1) (header s.data)
        let type := (s.words (newState - 1)).toInt.tmod maxTypes
        if type < 0 ∨ 4 < type then (-1, s)
        else
          let degree := degrees.getD type.toNat 0
          let separation := seps.getD type.toNat 0
          let data := { s.data with
            randDeg := degree, randSep := separation, randType := BitVec.ofInt 32 type }
          let data :=
            if type ≠ 0 then
              let rear := ((s.words (newState - 1)).toInt.tdiv maxTypes).toNat
              { data with
                rptr := newState + rear, fptr := newState + (rear + separation) % degree }
            else data
          (0, { s with data := { data with state := newState, endPtr := newState + degree } })

end Cs140e.LibpiFake.Random
