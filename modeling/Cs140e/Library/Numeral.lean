import Mathlib.Data.List.Basic

/-!
# Texts and numerals as bytes
-/

namespace Cs140e.Library

/-- The bytes of a text of the source. -/
def asciiBytes (text : String) : List UInt8 := text.toList.map fun c => UInt8.ofNat c.toNat

/-- `isspace` of the C library. -/
def isspace (c : UInt8) : Bool := c == 32 || (9 ≤ c && c ≤ 13)

/-- `isprint` of the C library. -/
def isprint (c : UInt8) : Bool := 32 ≤ c && c ≤ 126

/-- The byte of a digit, lower case beyond nine. -/
def digitByte (digit : Nat) : UInt8 := UInt8.ofNat (Nat.digitChar digit).toNat

/-- The numeral of a number in a base of at most sixteen. -/
def numeral (base n : Nat) : List UInt8 :=
  (Nat.toDigits base n).map fun c => UInt8.ofNat c.toNat

theorem numeral_of_lt {base n : Nat} (small : n < base) : numeral base n = [digitByte n] := by
  rw [numeral, Nat.toDigits_of_lt_base small]
  rfl

theorem numeral_of_le {base n : Nat} (positional : 1 < base) (large : base ≤ n) :
    numeral base n = numeral base (n / base) ++ [digitByte (n % base)] := by
  rw [numeral, Nat.toDigits_of_base_le positional large, List.map_append]
  rfl

theorem digitByte_ne_zero : ∀ d < 16, digitByte d ≠ 0 := by decide

theorem numeral_ne_nil {base : Nat} (positional : 1 < base) (n : Nat) : numeral base n ≠ [] := by
  rcases Nat.lt_or_ge n base with small | large
  · rw [numeral_of_lt small]
    exact List.cons_ne_nil _ _
  · rw [numeral_of_le positional large]
    exact List.append_ne_nil_of_right_ne_nil _ (List.cons_ne_nil _ _)

theorem digitByte_inj : ∀ a < 16, ∀ b < 16, digitByte a = digitByte b → a = b := by decide

theorem numeral_short {base m n : Nat} (positional : 1 < base) (small : m < base)
    (large : base ≤ n) : numeral base m ≠ numeral base n := by
  intro same
  have lengths := congrArg List.length same
  have front := List.length_pos_iff.mpr (numeral_ne_nil positional (n / base))
  rw [numeral_of_lt small, numeral_of_le positional large, List.length_append,
    List.length_singleton, List.length_singleton] at lengths
  omega

theorem numeral_injective {base : Nat} (positional : 1 < base) (few : base ≤ 16) :
    Function.Injective (numeral base) := by
  intro m
  induction m using Nat.strongRecOn with
  | ind m ih =>
      intro n same
      rcases Nat.lt_or_ge m base with small | large
      · rcases Nat.lt_or_ge n base with low | high
        · rw [numeral_of_lt small, numeral_of_lt low] at same
          exact digitByte_inj m (by omega) n (by omega) (List.cons.inj same).1
        · exact absurd same (numeral_short positional small high)
      · rcases Nat.lt_or_ge n base with low | high
        · exact absurd same.symm (numeral_short positional low large)
        · have first := Nat.mod_lt m (by omega : base > 0)
          have second := Nat.mod_lt n (by omega : base > 0)
          rw [numeral_of_le positional large, numeral_of_le positional high] at same
          obtain ⟨front, last⟩ := List.append_inj' same rfl
          have quotient := ih (m / base) (Nat.div_lt_self (by omega) positional) front
          have remainder := digitByte_inj (m % base) (by omega) (n % base) (by omega)
            (List.cons.inj last).1
          rw [← Nat.div_add_mod m base, quotient, remainder, Nat.div_add_mod]

theorem nul_not_mem_numeral {base : Nat} (positional : 1 < base) (few : base ≤ 16) (n : Nat) :
    0 ∉ numeral base n := by
  induction n using Nat.strongRecOn with
  | ind n ih =>
      rcases Nat.lt_or_ge n base with small | large
      · rw [numeral_of_lt small, List.mem_singleton]
        exact (digitByte_ne_zero n (by omega)).symm
      · have below := Nat.mod_lt n (by omega : base > 0)
        have quotient := ih (n / base) (Nat.div_lt_self (by omega) positional)
        rw [numeral_of_le positional large, List.mem_append, List.mem_singleton, not_or]
        exact ⟨quotient, (digitByte_ne_zero (n % base) (by omega)).symm⟩

end Cs140e.Library
