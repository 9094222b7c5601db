import Mathlib.Data.UInt

/-!
# 32-bit words as four bytes, lowest byte first
-/

namespace Cs140e.Library.LittleEndian

/-- The four bytes of a word in the order they are stored. -/
def bytesOf (word : UInt32) : List UInt8 :=
  [UInt8.ofNat word.toNat, UInt8.ofNat (word.toNat / 2 ^ 8),
    UInt8.ofNat (word.toNat / 2 ^ 16), UInt8.ofNat (word.toNat / 2 ^ 24)]

/-- The word stored in the given bytes. -/
def wordOf (bytes : List UInt8) : UInt32 :=
  UInt32.ofNat (bytes.foldr (fun byte rest => byte.toNat + 2 ^ 8 * rest) 0)

@[simp]
theorem length_bytesOf (word : UInt32) : (bytesOf word).length = 4 := rfl

/-- Reading back the stored bytes gives the word. -/
@[simp]
theorem wordOf_bytesOf (word : UInt32) : wordOf (bytesOf word) = word := by
  apply UInt32.toNat_inj.mp
  have small := word.toNat_lt
  simp only [wordOf, bytesOf, List.foldr_cons, List.foldr_nil, UInt8.toNat_ofNat',
    UInt32.toNat_ofNat']
  omega

/-- Only four bytes are stored. -/
theorem bytesOf_wordOf (b0 b1 b2 b3 : UInt8) :
    bytesOf (wordOf [b0, b1, b2, b3]) = [b0, b1, b2, b3] := by
  have h0 := b0.toNat_lt
  have h1 := b1.toNat_lt
  have h2 := b2.toNat_lt
  have h3 := b3.toNat_lt
  simp only [bytesOf, wordOf, List.foldr_cons, List.foldr_nil, UInt32.toNat_ofNat',
    List.cons.injEq, ← UInt8.toNat_inj, UInt8.toNat_ofNat', and_true]
  omega

/-- Four bytes at the front of a text are a word. -/
theorem exists_word (bytes : List UInt8) (long : 4 ≤ bytes.length) :
    ∃ word, bytes = bytesOf word ++ bytes.drop 4 := by
  rcases bytes with _ | ⟨b0, _ | ⟨b1, _ | ⟨b2, _ | ⟨b3, rest⟩⟩⟩⟩
  · simp at long
  · simp at long
  · simp at long
  · simp at long
  · refine ⟨wordOf [b0, b1, b2, b3], ?_⟩
    rw [bytesOf_wordOf]
    rfl

/-! ## Shifting bytes in and out of a word -/

/-- Bits that do not meet are added. -/
theorem toNat_or_of_lt (shift : Nat) (low high : UInt32) (small : low.toNat < 2 ^ shift)
    (above : high.toNat = 2 ^ shift * (high.toNat / 2 ^ shift)) :
    (low ||| high).toNat = low.toNat + high.toNat := by
  rw [UInt32.toNat_or, above, Nat.or_comm, ← Nat.two_pow_add_eq_or_of_lt small, Nat.add_comm]

/-- A word put together from its bytes. -/
theorem or_shift (b0 b1 b2 b3 : UInt8) :
    b0.toUInt32 ||| b1.toUInt32 <<< 8 ||| b2.toUInt32 <<< 16 ||| b3.toUInt32 <<< 24 =
      wordOf [b0, b1, b2, b3] := by
  have h0 := b0.toNat_lt
  have h1 := b1.toNat_lt
  have h2 := b2.toNat_lt
  have h3 := b3.toNat_lt
  have e0 : b0.toUInt32.toNat = b0.toNat := UInt8.toNat_toUInt32 b0
  have e1 : (b1.toUInt32 <<< 8).toNat = 2 ^ 8 * b1.toNat := by
    simp [UInt32.toNat_shiftLeft, Nat.shiftLeft_eq]
    omega
  have e2 : (b2.toUInt32 <<< 16).toNat = 2 ^ 16 * b2.toNat := by
    simp [UInt32.toNat_shiftLeft, Nat.shiftLeft_eq]
    omega
  have e3 : (b3.toUInt32 <<< 24).toNat = 2 ^ 24 * b3.toNat := by
    simp [UInt32.toNat_shiftLeft, Nat.shiftLeft_eq]
    omega
  have two := toNat_or_of_lt 8 b0.toUInt32 (b1.toUInt32 <<< 8) (by omega) (by omega)
  have three := toNat_or_of_lt 16 (b0.toUInt32 ||| b1.toUInt32 <<< 8) (b2.toUInt32 <<< 16)
    (by omega) (by omega)
  have four := toNat_or_of_lt 24 (b0.toUInt32 ||| b1.toUInt32 <<< 8 ||| b2.toUInt32 <<< 16)
    (b3.toUInt32 <<< 24) (by omega) (by omega)
  apply UInt32.toNat_inj.mp
  rw [four, three, two]
  simp only [wordOf, List.foldr_cons, List.foldr_nil, UInt32.toNat_ofNat']
  omega

theorem or_reverse (w0 w1 w2 w3 : UInt32) : w3 ||| w2 ||| w1 ||| w0 = w0 ||| w1 ||| w2 ||| w3 := by
  ac_rfl

theorem or_shift_reverse (b0 b1 b2 b3 : UInt8) :
    b3.toUInt32 <<< 24 ||| b2.toUInt32 <<< 16 ||| b1.toUInt32 <<< 8 ||| b0.toUInt32 =
      wordOf [b0, b1, b2, b3] := by
  rw [or_reverse, or_shift]

/-- A word put together from two halves. -/
theorem or_shift_halves (b0 b1 b2 b3 : UInt8) :
    (b2.toUInt32 ||| b3.toUInt32 <<< 8) <<< 16 ||| (b0.toUInt32 ||| b1.toUInt32 <<< 8) =
      wordOf [b0, b1, b2, b3] := by
  rw [UInt32.shiftLeft_or, ← UInt32.shiftLeft_add_of_toNat_lt (by decide),
    show (8 : UInt32) + 16 = 24 from rfl, ← or_shift, UInt32.or_comm, ← UInt32.or_assoc]

/-- A byte of a word that was shifted down and masked. -/
theorem shift_and (word : UInt32) (shift : Nat) (small : shift < 32) :
    ((word >>> UInt32.ofNat shift) &&& 0xff).toUInt8 = UInt8.ofNat (word.toNat / 2 ^ shift) := by
  apply UInt8.toNat_inj.mp
  have mask : (0xff : UInt32).toNat = 2 ^ 8 - 1 := rfl
  rw [UInt32.toNat_toUInt8, UInt32.toNat_and, UInt32.toNat_shiftRight, mask,
    Nat.and_two_pow_sub_one_eq_mod, UInt32.toNat_ofNat',
    Nat.mod_eq_of_lt (by omega : shift < 2 ^ 32), Nat.mod_eq_of_lt small,
    Nat.shiftRight_eq_div_pow, Nat.mod_mod, UInt8.toNat_ofNat']

end Cs140e.Library.LittleEndian
