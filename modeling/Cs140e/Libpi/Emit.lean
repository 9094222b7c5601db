import Mathlib.Data.Nat.Digits.Defs
import Cs140e.Libpi.Printk

/-!
# What `emit` leaves in its array

The digits are written from the last one on, then the spaces, and all of it is
reversed into the array of the caller.
-/

namespace Cs140e.Libpi.Printk

open Cs140e.Library
open Cs140e.Library.Buffer

/-! ## Digits -/

theorem length_numeral_le {base n k : Nat} (positive : 0 < k) (small : n < base ^ k) :
    (numeral base n).length ≤ k := by
  rw [numeral, List.length_map]
  exact Nat.toDigits_length base n k positive small

variable {old : Buffer UInt8}

/-- The loop writes the numeral backwards. -/
theorem digitLoop_numeral {digits : List UInt8} {base : UInt32} (positional : 1 < base.toNat)
    (table : ∀ d < base.toNat, digits[d]? = some (digitByte d)) (fuel : Nat) (u : UInt32)
    (out : List UInt8) (enough : (numeral base.toNat u.toNat).length ≤ fuel)
    (room : out.length + (numeral base.toNat u.toNat).length ≤ old.length) :
    digitLoop digits base fuel u out.length (written old out) =
      .ok (out ++ (numeral base.toNat u.toNat).reverse).length
        (written old (out ++ (numeral base.toNat u.toNat).reverse)) := by
  induction fuel generalizing u out with
  | zero =>
      have digit := List.length_pos_iff.mpr (numeral_ne_nil positional u.toNat)
      omega
  | succ fuel ih =>
      have below : (u % base).toNat < base.toNat := by
        rw [UInt32.toNat_mod]
        exact Nat.mod_lt _ (by omega)
      have quotient : (u / base).toNat = u.toNat / base.toNat := UInt32.toNat_div u base
      rw [digitLoop, table _ below]
      dsimp only
      rcases Nat.lt_or_ge u.toNat base.toNat with small | large
      · have last : u / base = 0 := by
          apply UInt32.toNat_inj.mp
          rw [quotient, Nat.div_eq_of_lt small]
          rfl
        have digit : digitByte (u % base).toNat = digitByte u.toNat := by
          rw [UInt32.toNat_mod, Nat.mod_eq_of_lt small]
        rw [numeral_of_lt small] at room ⊢
        rw [Prog.bind_of_ok (store_written (Nat.lt_of_succ_le room) _),
          if_neg (not_not_intro last), digit, List.reverse_singleton, List.length_append]
        rfl
      · have more : u / base ≠ 0 := by
          intro zero
          have none : (u / base).toNat = 0 := by
            rw [zero]
            rfl
          rw [quotient] at none
          have some := Nat.div_pos large (by omega)
          omega
        have split := numeral_of_le positional large
        rw [← quotient, ← UInt32.toNat_mod] at split
        rw [split, List.length_append, List.length_singleton] at enough room
        have next : (out ++ [digitByte (u % base).toNat]).length = out.length + 1 := by
          rw [List.length_append]
          rfl
        have rest := ih (u / base) (out ++ [digitByte (u % base).toNat]) (by omega) (by omega)
        rw [next, List.append_assoc] at rest
        rw [Prog.bind_of_ok (store_written (by omega) _), if_pos more, rest, split,
          List.reverse_append]
        rfl

theorem table_10 : ∀ d < 10, (asciiBytes "0123456789")[d]? = some (digitByte d) := by decide

theorem table_16 : ∀ d < 16, (asciiBytes "0123456789abcdef")[d]? = some (digitByte d) := by decide

theorem table_2 : ∀ d < 2, (asciiBytes "01")[d]? = some (digitByte d) := by decide

/-! ## Numbers -/

/-- A signed number in decimal. -/
def signedNumeral (val : Int32) : List UInt8 :=
  if val < 0 then 45 :: numeral 10 val.toInt.natAbs else numeral 10 val.toInt.natAbs

theorem toInt_eq (val : Int32) :
    val.toInt = if 2 * val.toUInt32.toNat < 2 ^ 32 then (val.toUInt32.toNat : Int)
      else val.toUInt32.toNat - (2 ^ 32 : Nat) :=
  BitVec.toInt_eq_toNat_cond val.toBitVec

theorem lt_zero_iff (val : Int32) : val < 0 ↔ val.toInt < 0 := Int32.lt_iff_toInt_lt

/-- The negation wraps around, and the result is read without a sign. -/
theorem toNat_neg_of_neg {val : Int32} (negative : val < 0) :
    (-val).toUInt32.toNat = val.toInt.natAbs := by
  have wrapped : (-val).toUInt32.toNat = (2 ^ 32 - val.toUInt32.toNat) % 2 ^ 32 :=
    BitVec.toNat_neg val.toBitVec
  have bound := val.toUInt32.toNat_lt
  have value := toInt_eq val
  rw [lt_zero_iff] at negative
  rw [wrapped]
  split at value <;> omega

theorem toNat_of_not_neg {val : Int32} (positive : ¬ val < 0) :
    val.toUInt32.toNat = val.toInt.natAbs := by
  have value := toInt_eq val
  rw [lt_zero_iff] at positive
  have bound := val.toUInt32.toNat_lt
  split at value <;> omega

theorem natAbs_lt (val : Int32) : val.toInt.natAbs < 10 ^ 10 := by
  have value := toInt_eq val
  have bound := val.toUInt32.toNat_lt
  split at value <;> omega

/-- What a conversion leaves in the buffer of 64 bytes. -/
def Digits (program : Prog (Buffer UInt8) Nat) (body : List UInt8) : Prop :=
  body.length ≤ 32 ∧
    program (uninit 64) = .ok body.length (written (uninit 64) body.reverse)

theorem digits_of_digitLoop (digits : List UInt8) (base : UInt32) (positional : 1 < base.toNat)
    (table : ∀ d < base.toNat, digits[d]? = some (digitByte d)) (u : UInt32) :
    Digits (digitLoop digits base 32 u 0) (numeral base.toNat u.toNat) := by
  have small : u.toNat < base.toNat ^ 32 :=
    Nat.lt_of_lt_of_le u.toNat_lt (Nat.pow_le_pow_left positional 32)
  have length := length_numeral_le (by decide : 0 < 32) small
  have room : ([] : List UInt8).length + (numeral base.toNat u.toNat).length ≤
      (uninit (α := UInt8) 64).length := by
    rw [uninit, List.length_replicate, List.length_nil]
    omega
  have ran := digitLoop_numeral positional table 32 u [] length room
  rw [List.nil_append, List.length_reverse] at ran
  exact ⟨length, ran⟩

theorem digits_10 (u : UInt32) :
    Digits (digitLoop (asciiBytes "0123456789") 10 32 u 0) (numeral 10 u.toNat) :=
  digits_of_digitLoop _ 10 (by decide) table_10 u

theorem emitDigits_signed (val : Int32) : Digits (emitDigits 10 val true) (signedNumeral val) := by
  by_cases negative : val < 0
  · have digits := digits_10 (-val).toUInt32
    rw [toNat_neg_of_neg negative] at digits
    have few := length_numeral_le (by decide : 0 < 10) (natAbs_lt val)
    have room : (numeral 10 val.toInt.natAbs).reverse.length < (uninit (α := UInt8) 64).length := by
      rw [List.length_reverse, uninit, List.length_replicate]
      omega
    have sign := store_written room 45
    rw [List.length_reverse] at sign
    rw [signedNumeral, if_pos negative]
    refine ⟨by rw [List.length_cons]; omega, ?_⟩
    rw [emitDigits, if_pos rfl]
    simp only [negative, decide_true, Bool.and_self, if_true]
    rw [Prog.bind_of_ok digits.2, Prog.bind_of_ok sign, List.reverse_cons]
    rfl
  · have digits := digits_10 val.toUInt32
    rw [toNat_of_not_neg negative] at digits
    rw [signedNumeral, if_neg negative]
    refine ⟨digits.1, ?_⟩
    rw [emitDigits, if_pos rfl]
    simp only [negative, decide_false, Bool.false_and, Bool.false_eq_true, if_false]
    rw [Prog.bind_of_ok digits.2]
    rfl

theorem emitDigits_unsigned (val : Int32) :
    Digits (emitDigits 10 val false) (numeral 10 val.toUInt32.toNat) := by
  have digits := digits_10 val.toUInt32
  refine ⟨digits.1, ?_⟩
  rw [emitDigits, if_pos rfl]
  simp only [Bool.and_false, Bool.false_eq_true, if_false]
  rw [Prog.bind_of_ok digits.2]
  rfl

theorem emitDigits_hex (val : Int32) :
    Digits (emitDigits 16 val false) (numeral 16 val.toUInt32.toNat) :=
  digits_of_digitLoop _ 16 (by decide) table_16 val.toUInt32

theorem emitDigits_binary (val : Int32) :
    Digits (emitDigits 2 val false) (numeral 2 val.toUInt32.toNat) :=
  digits_of_digitLoop _ 2 (by decide) table_2 val.toUInt32

theorem emitDigits_char (val : Int32) :
    Digits (emitDigits 8 val false) [val.toUInt32.toUInt8] :=
  ⟨Nat.le_of_ble_eq_true rfl, rfl⟩

/-! ## Padding and reversing -/

def rightJustified (width : Nat) (body : List UInt8) : List UInt8 :=
  List.replicate (width - body.length) 32 ++ body

theorem padLoop_apply {left : Nat} {out : List UInt8} (room : out.length + left ≤ old.length) :
    padLoop left out.length (written old out) =
      .ok (out.length + left) (written old (out ++ List.replicate left 32)) := by
  induction left generalizing out with
  | zero =>
      rw [List.replicate_zero, List.append_nil]
      rfl
  | succ left ih =>
      have rest := @ih (out ++ [32]) (by
        rw [List.length_append, List.length_singleton]
        omega)
      rw [List.length_append, List.append_assoc] at rest
      rw [padLoop, Prog.bind_of_ok (store_written (by omega) 32), List.replicate_succ,
        Nat.add_comm left, ← Nat.add_assoc]
      exact rest

theorem pad_apply {width : Nat} {out : List UInt8} (short : out.length < old.length)
    (fits : width < old.length) :
    pad out.length 0 width (written old out) =
      .ok (out ++ List.replicate (width - out.length) 32).length
        (written old (out ++ List.replicate (width - out.length) 32 ++ [0])) := by
  have length : (out ++ List.replicate (width - out.length) 32).length =
      out.length + (width - out.length) := by
    rw [List.length_append, List.length_replicate]
  have room : out.length + (width - out.length) ≤ old.length := by omega
  have padded := padLoop_apply room
  rw [← length] at padded
  rw [pad, Nat.sub_zero, Prog.bind_of_ok padded,
    Prog.bind_of_ok (store_written (by rw [length]; omega) 0)]
  rfl

theorem reverseLoop_apply (src : Buffer UInt8) {values : List UInt8} {p : Nat}
    (within : p ≤ values.length) {out : List UInt8} (room : out.length + p ≤ old.length) :
    reverseLoop (written src values) 0 p out.length (written old out) =
      .ok (out ++ (values.take p).reverse).length
        (written old (out ++ (values.take p).reverse)) := by
  induction p generalizing out with
  | zero =>
      rw [List.take_zero, List.reverse_nil, List.append_nil]
      rfl
  | succ p ih =>
      have stored : values[p]? = some values[p] := List.getElem?_eq_getElem within
      have next : (out ++ [values[p]]).length = out.length + 1 := by
        rw [List.length_append]
        rfl
      have rest := @ih (Nat.le_of_succ_le within) (out ++ [values[p]]) (by omega)
      have turned : out ++ (values.take (p + 1)).reverse =
          out ++ [values[p]] ++ (values.take p).reverse := by
        rw [List.take_add_one, stored, List.reverse_append, List.append_assoc]
        rfl
      rw [next] at rest
      rw [reverseLoop, if_pos (Nat.zero_le p), Prog.bind_of_ok (fetch_written stored _),
        Prog.bind_of_ok (store_written (by omega) _), rest, turned]

theorem reverse_apply (src : Buffer UInt8) {body : List UInt8} {n : Nat} (size : old.length = n)
    (fits : body.length < n) :
    reverse n body.length 0 (written src (body ++ [0])) old =
      .ok () (written old (body.reverse ++ [0])) := by
  have within : body.length ≤ (body ++ [(0 : UInt8)]).length := by
    rw [List.length_append]
    omega
  have room : ([] : List UInt8).length + body.length ≤ old.length := by
    rw [List.length_nil]
    omega
  have turned := reverseLoop_apply src within room
  rw [List.take_left, List.nil_append, written_nil, List.length_nil] at turned
  have inside : body.reverse.length < old.length := by
    rw [List.length_reverse]
    omega
  have ended := store_written inside 0
  rw [reverse, Nat.sub_zero, if_neg (by omega), Prog.bind_of_ok turned]
  exact ended

/-- `emit` leaves the right-justified field with its NUL in the array. -/
theorem emit_apply {base width : Nat} {val : Int32} {signedP : Bool} {body : List UInt8}
    (digits : Digits (emitDigits base val signedP) body) (small : width < 32) :
    emit base 128 val width signedP (uninit 128) =
      .ok () (written (uninit 128) (rightJustified width body ++ [0])) := by
  obtain ⟨few, ran⟩ := digits
  have length64 : (uninit (α := UInt8) 64).length = 64 := List.length_replicate
  have length128 : (uninit (α := UInt8) 128).length = 128 := List.length_replicate
  have short : body.reverse.length < (uninit (α := UInt8) 64).length := by
    rw [List.length_reverse]
    omega
  have padded := pad_apply short (by omega : width < (uninit (α := UInt8) 64).length)
  rw [List.length_reverse] at padded
  have local' : Prog.locally (σ := Buffer UInt8) (uninit 64) (do
      let p ← emitDigits base val signedP
      pad p 0 width) (uninit 128) = _ :=
    Prog.locally_of_ok ((Prog.bind_of_ok ran).trans padded) _
  have field : (body.reverse ++ List.replicate (width - body.length) 32).reverse =
      rightJustified width body := by
    rw [List.reverse_append, List.reverse_reverse, List.reverse_replicate, rightJustified]
  rw [emit, if_neg (by omega), Prog.bind_of_ok local', ← field]
  refine reverse_apply _ length128 ?_
  rw [List.length_append, List.length_reverse, List.length_replicate]
  omega

end Cs140e.Libpi.Printk
