import Mathlib.Data.UInt
import Cs140e.Library.Prog

/-!
# UTF-8

A translation of `to_utf8` in `unicode-utf8.c`.  On the code points of a long
name it is the standard encoding.
-/

namespace Cs140e.Fat32

open Cs140e.Library

/-! ## `to_utf8` -/

/-- `utf_t`. -/
structure Utf where
  mask : UInt8
  lead : UInt8
  beg : UInt32
  endCp : UInt32
  bitsStored : Nat

def utf0 : Utf := ⟨0b00111111, 0b10000000, 0, 0, 6⟩

/-- The table `utf`; no null pointer ends it. -/
def utf : List Utf :=
  [utf0,
    ⟨0b01111111, 0b00000000, 0o0, 0o177, 7⟩,
    ⟨0b00011111, 0b11000000, 0o200, 0o3777, 5⟩,
    ⟨0b00001111, 0b11100000, 0o4000, 0o177777, 4⟩,
    ⟨0b00000111, 0b11110000, 0o200000, 0o4177777, 3⟩,
    ⟨0, 0, 0, 0, 0⟩]

variable {σ : Type}

/-- The loop of `codepoint_len`. -/
def lenLoop (cp : UInt32) : List Utf → Nat → Prog σ Nat
  | [], _ => throw (.undefined "*u behind the table")
  | u :: rest, len =>
      if u.beg ≤ cp ∧ cp ≤ u.endCp then pure len else lenLoop cp rest (len + 1)

/-- `none` is the return value -1. -/
def codepointLen (cp : UInt32) : Prog σ (Option Nat) := do
  let len ← lenLoop cp utf 0
  if len > 4 then pure none else pure (some len)

/-- The byte of a code point at a shift, marked as one of the given kind. -/
def utfByte (cp : UInt32) (shift : Nat) (u : Utf) : UInt8 :=
  (cp >>> UInt32.ofNat shift &&& u.mask.toUInt32 ||| u.lead.toUInt32).toUInt8

/-- The bytes behind the first one, for the number of them that are left. -/
def utfTail (cp : UInt32) : Nat → List UInt8
  | 0 => []
  | left + 1 => utfByte cp (utf0.bitsStored * left) utf0 :: utfTail cp left

/-- `to_utf8`: the string in `ret`, or `none` for the null pointer. -/
def toUtf8 (cp : UInt32) : Prog σ (Option (List UInt8)) := do
  match ← codepointLen cp with
  | none => pure none
  | some bytes =>
      match utf[bytes]? with
      | none => throw (.undefined "utf[bytes] behind the table")
      | some u =>
          if bytes = 0 then throw (.undefined "a negative shift")
          let shift := utf0.bitsStored * (bytes - 1)
          pure (some (utfByte cp shift u :: utfTail cp (bytes - 1) ++ [0]))

/-! ## The standard encoding -/

/-- A UTF-16 unit that is a character of its own. -/
def Plain (unit : UInt16) : Prop :=
  unit ≠ 0 ∧ unit ≠ 0xFFFF ∧ ¬ (0xD800 ≤ unit ∧ unit ≤ 0xDFFF)

/-- The standard encoding of a unit. -/
def utf8Of (unit : UInt16) : List UInt8 := String.utf8EncodeChar (Char.ofNat unit.toNat)

theorem val_ofNat {unit : UInt16} (plain : Plain unit) :
    (Char.ofNat unit.toNat).val = unit.toUInt32 := by
  obtain ⟨-, -, outside⟩ := plain
  have small := unit.toNat_lt
  have valid : unit.toNat.isValidChar := by
    simp only [UInt16.le_iff_toNat_le, UInt16.reduceToNat] at outside
    simp only [Nat.isValidChar]
    omega
  have same : (Char.ofNat unit.toNat).val.toNat = unit.toUInt32.toNat := by
    rw [Char.ofNat, dif_pos valid]
    rfl
  exact UInt32.toNat_inj.mp same

theorem utfByte_eq (cp : UInt32) (shift : Nat) (u : Utf) :
    utfByte cp shift u = (cp >>> UInt32.ofNat shift).toUInt8 &&& u.mask ||| u.lead := by
  rw [utfByte, UInt32.toUInt8_or, UInt32.toUInt8_and, UInt8.toUInt8_toUInt32,
    UInt8.toUInt8_toUInt32]

theorem lenLoop_of_mem {cp : UInt32} {u : Utf} (rest : List Utf) (len : Nat)
    (low : u.beg ≤ cp) (high : cp ≤ u.endCp) :
    (lenLoop cp (u :: rest) len : Prog σ Nat) = pure len := by
  rw [lenLoop, if_pos ⟨low, high⟩]

theorem lenLoop_of_lt {cp : UInt32} {u : Utf} (rest : List Utf) (len : Nat)
    (behind : u.endCp < cp) :
    (lenLoop cp (u :: rest) len : Prog σ Nat) = lenLoop cp rest (len + 1) := by
  rw [lenLoop, if_neg fun inside => UInt32.not_le.mpr behind inside.2]

theorem codepointLen_one {cp : UInt32} (low : 0 < cp) (high : cp ≤ 0x7f) (state : σ) :
    codepointLen cp state = .ok (some 1) state := by
  rw [codepointLen, utf, lenLoop_of_lt _ _ low, lenLoop_of_mem _ _ UInt32.zero_le high]
  rfl

theorem codepointLen_two {cp : UInt32} (low : 0x7f < cp) (high : cp ≤ 0x7ff) (state : σ) :
    codepointLen cp state = .ok (some 2) state := by
  have above : (0 : UInt32) < cp := UInt32.lt_of_le_of_lt UInt32.zero_le low
  rw [codepointLen, utf, lenLoop_of_lt _ _ above, lenLoop_of_lt _ _ low,
    lenLoop_of_mem _ _ (UInt32.lt_iff_toNat_lt.mp low) high]
  rfl

theorem codepointLen_three {cp : UInt32} (low : 0x7ff < cp) (high : cp ≤ 0xffff) (state : σ) :
    codepointLen cp state = .ok (some 3) state := by
  have above : (0x7f : UInt32) < cp := UInt32.lt_trans (by decide) low
  have positive : (0 : UInt32) < cp := UInt32.lt_trans (by decide) above
  rw [codepointLen, utf, lenLoop_of_lt _ _ positive, lenLoop_of_lt _ _ above,
    lenLoop_of_lt _ _ low, lenLoop_of_mem _ _ (UInt32.lt_iff_toNat_lt.mp low) high]
  rfl

theorem Plain.positive {unit : UInt16} (plain : Plain unit) : 0 < unit.toUInt32 := by
  have nonzero : unit.toNat ≠ 0 := fun zero => plain.1 (UInt16.toNat_inj.mp zero)
  rw [UInt32.lt_iff_toNat_lt, UInt16.toNat_toUInt32]
  exact Nat.pos_of_ne_zero nonzero

theorem toUInt32_le (unit : UInt16) : unit.toUInt32 ≤ 0xffff := by
  have bound := unit.toNat_lt
  rw [UInt32.le_iff_toNat_le, UInt16.toNat_toUInt32]
  exact Nat.le_of_lt_succ bound

theorem utf8Of_eq {unit : UInt16} (plain : Plain unit) :
    utf8Of unit =
      if unit.toUInt32 ≤ 0x7f then [unit.toUInt32.toUInt8]
      else if unit.toUInt32 ≤ 0x7ff then
        [(unit.toUInt32 >>> 6).toUInt8 &&& 0x1f ||| 0xc0,
          unit.toUInt32.toUInt8 &&& 0x3f ||| 0x80]
      else
        [(unit.toUInt32 >>> 12).toUInt8 &&& 0x0f ||| 0xe0,
          (unit.toUInt32 >>> 6).toUInt8 &&& 0x3f ||| 0x80,
          unit.toUInt32.toUInt8 &&& 0x3f ||| 0x80] := by
  rw [utf8Of, String.utf8EncodeChar_eq_utf8EncodeCharFast, String.utf8EncodeCharFast,
    val_ofNat plain, if_pos (toUInt32_le unit)]

theorem utfByte_zero (cp : UInt32) (u : Utf) :
    utfByte cp 0 u = cp.toUInt8 &&& u.mask ||| u.lead := by
  rw [utfByte_eq, show UInt32.ofNat 0 = 0 from rfl, UInt32.shiftRight_zero]

theorem ascii_byte {cp : UInt32} (high : cp ≤ 0x7f) : cp.toUInt8 &&& 0x7f ||| 0 = cp.toUInt8 := by
  rw [UInt8.or_zero, ← UInt8.toNat_inj, UInt8.toNat_and, UInt32.toNat_toUInt8]
  have small : cp.toNat ≤ 127 := UInt32.le_iff_toNat_le.mp high
  rw [show (0x7f : UInt8).toNat = 2 ^ 7 - 1 from rfl, Nat.and_two_pow_sub_one_eq_mod]
  omega

theorem toUtf8_of_len {cp : UInt32} {bytes : Nat} {u : Utf} {state : σ}
    (len : codepointLen cp state = .ok (some bytes) state) (found : utf[bytes]? = some u)
    (positive : bytes ≠ 0) :
    toUtf8 cp state =
      .ok (some (utfByte cp (utf0.bitsStored * (bytes - 1)) u :: utfTail cp (bytes - 1) ++ [0]))
        state := by
  rw [toUtf8, Prog.bind_of_ok len]
  dsimp only
  rw [found]
  dsimp only
  rw [if_neg positive]
  rfl

theorem utfTail_one (cp : UInt32) : utfTail cp (2 - 1) = [cp.toUInt8 &&& 0x3f ||| 0x80] := by
  show [utfByte cp 0 utf0] = _
  rw [utfByte_zero]
  rfl

theorem utfTail_two (cp : UInt32) :
    utfTail cp (3 - 1) = [(cp >>> 6).toUInt8 &&& 0x3f ||| 0x80, cp.toUInt8 &&& 0x3f ||| 0x80] := by
  show utfByte cp 6 utf0 :: utfTail cp (2 - 1) = _
  rw [utfTail_one, utfByte_eq]
  rfl

theorem toUtf8_plain {unit : UInt16} (plain : Plain unit) (state : σ) :
    toUtf8 unit.toUInt32 state = .ok (some (utf8Of unit ++ [0])) state := by
  rw [utf8Of_eq plain]
  split
  · rename_i high
    rw [toUtf8_of_len (codepointLen_one plain.positive high state) rfl (by decide),
      show utf0.bitsStored * (1 - 1) = 0 from rfl, utfByte_zero, ascii_byte high]
    rfl
  split
  · rename_i low high
    rw [toUtf8_of_len (codepointLen_two (UInt32.not_le.mp low) high state) rfl (by decide),
      utfTail_one, utfByte_eq]
    rfl
  · rename_i low
    rw [toUtf8_of_len (codepointLen_three (UInt32.not_le.mp low) (toUInt32_le unit) state) rfl
        (by decide),
      utfTail_two, utfByte_eq]
    rfl

theorem or_ne_zero {byte lead : UInt8} (marked : lead ≠ 0) : 0 ≠ byte ||| lead := by
  intro zero
  exact marked (UInt8.or_eq_zero_iff.mp zero.symm).2

theorem nul_not_mem_utf8Of {unit : UInt16} (plain : Plain unit) : 0 ∉ utf8Of unit := by
  rw [utf8Of_eq plain]
  split
  · rename_i high
    have small : unit.toUInt32.toNat ≤ 127 := UInt32.le_iff_toNat_le.mp high
    have positive : 0 < unit.toUInt32.toNat := UInt32.lt_iff_toNat_lt.mp plain.positive
    rw [List.mem_singleton, ← UInt8.toNat_inj, UInt32.toNat_toUInt8, UInt8.toNat_zero]
    omega
  split
  · simp only [List.mem_cons, List.not_mem_nil, or_false, not_or]
    exact ⟨or_ne_zero (by decide), or_ne_zero (by decide)⟩
  · simp only [List.mem_cons, List.not_mem_nil, or_false, not_or]
    exact ⟨or_ne_zero (by decide), or_ne_zero (by decide), or_ne_zero (by decide)⟩

end Cs140e.Fat32
