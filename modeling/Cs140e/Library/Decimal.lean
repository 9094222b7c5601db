import Mathlib.Algebra.Group.Nat.Defs
import Mathlib.Data.List.Basic

/-!
# Decimal numerals as bytes
-/

namespace Cs140e.Library.Decimal

/-- The numeral of a number. -/
def digits (n : Nat) : List UInt8 := (Nat.toDigits 10 n).map fun c => UInt8.ofNat c.toNat

/-- The number that a numeral continues when `start` has been read. -/
def valueFrom (start : Nat) (numeral : List UInt8) : Nat :=
  numeral.foldl (fun value c => 10 * value + (c.toNat - 48)) start

/-- The number of a numeral. -/
def value (numeral : List UInt8) : Nat := valueFrom 0 numeral

def IsDigit (c : UInt8) : Prop := 48 ≤ c.toNat ∧ c.toNat ≤ 57

instance (c : UInt8) : Decidable (IsDigit c) := inferInstanceAs (Decidable (_ ∧ _))

theorem digitChar_toNat : ∀ d < 10, (UInt8.ofNat (Nat.digitChar d).toNat).toNat = 48 + d := by
  decide

theorem digits_of_lt {n : Nat} (small : n < 10) :
    digits n = [UInt8.ofNat (Nat.digitChar n).toNat] := by
  rw [digits, Nat.toDigits_of_lt_base small]
  rfl

theorem digits_of_le {n : Nat} (large : 10 ≤ n) :
    digits n = digits (n / 10) ++ [UInt8.ofNat (Nat.digitChar (n % 10)).toNat] := by
  rw [digits, Nat.toDigits_of_base_le (by decide) large, List.map_append]
  rfl

theorem digits_ne_nil (n : Nat) : digits n ≠ [] := by
  rcases Nat.lt_or_ge n 10 with small | large
  · rw [digits_of_lt small]
    exact List.cons_ne_nil _ _
  · rw [digits_of_le large]
    exact List.append_ne_nil_of_right_ne_nil _ (List.cons_ne_nil _ _)

/-- The numeral of a number below a power of ten. -/
theorem length_digits_le {n : Nat} (width : Nat) (small : n < 10 ^ (width + 1)) :
    (digits n).length ≤ width + 1 := by
  induction width generalizing n with
  | zero =>
      rw [digits_of_lt (by simpa using small)]
      exact Nat.le_refl _
  | succ width ih =>
      rcases Nat.lt_or_ge n 10 with one | large
      · rw [digits_of_lt one]
        exact Nat.le_add_left 1 _
      · have front := ih (n := n / 10) (by rw [Nat.pow_succ] at small; omega)
        rw [digits_of_le large, List.length_append, List.length_singleton]
        omega

theorem isDigit_of_mem {n : Nat} : ∀ c ∈ digits n, IsDigit c := by
  induction n using Nat.strongRecOn with
  | ind n ih =>
      intro c mem
      rcases Nat.lt_or_ge n 10 with small | large
      · rw [digits_of_lt small, List.mem_singleton] at mem
        rw [mem, IsDigit, digitChar_toNat n small]
        omega
      · rw [digits_of_le large, List.mem_append, List.mem_singleton] at mem
        rcases mem with mem | rfl
        · exact ih (n / 10) (by omega) c mem
        · have last := Nat.mod_lt n (by decide : 10 > 0)
          rw [IsDigit, digitChar_toNat _ last]
          omega

/-- Reading undoes printing. -/
theorem value_digits (n : Nat) : value (digits n) = n := by
  induction n using Nat.strongRecOn with
  | ind n ih =>
      rcases Nat.lt_or_ge n 10 with small | large
      · rw [digits_of_lt small, value, valueFrom, List.foldl_cons, List.foldl_nil,
          digitChar_toNat n small]
        omega
      · have front := ih (n / 10) (by omega)
        have last := Nat.mod_lt n (by decide : 10 > 0)
        rw [value, valueFrom] at front
        rw [digits_of_le large, value, valueFrom, List.foldl_append, front, List.foldl_cons,
          List.foldl_nil, digitChar_toNat _ last]
        omega

end Cs140e.Library.Decimal
