import Cs140e.Library.Counted
import Cs140e.Library.Memory

/-!
# Copying memory

A translation of `libc/memcpy.c`.  Words are copied when the two pointers and
the number of bytes are multiples of four, else bytes.  Both loops go through
the copies of the region that end earlier.
-/

namespace Cs140e.Libpi.Memcpy

open Cs140e.Library
open Cs140e.Library.Memory

def aligned (ptr n : UInt32) : Bool := ptr % n == 0

def aligned4 (ptr : UInt32) : Bool := aligned ptr 4

/-- `d[i] = s[i];` on words. -/
def copyWord (d s : UInt32) (i : Nat) : Prog Memory Unit := do
  let word ← load32 (s.toNat + 4 * i)
  store32 (d.toNat + 4 * i) word

/-- `d[i] = s[i];` on bytes. -/
def copyByte (d s : UInt32) (i : Nat) : Prog Memory Unit := do
  let c ← load8 (s.toNat + i)
  store8 (d.toNat + i) c

def copyWords (d s n : UInt32) : Prog Memory Unit := Prog.forLoop n.toNat (copyWord d s)

def copyBytes (d s nbytes : UInt32) : Prog Memory Unit :=
  Prog.forLoop nbytes.toNat (copyByte d s)

/-- The test of `memcpy`. -/
def wordsP (dst src nbytes : UInt32) : Bool := aligned4 dst && aligned4 src && aligned4 nbytes

def memcpy (dst src nbytes : UInt32) : Prog Memory UInt32 := do
  if wordsP dst src nbytes then copyWords dst src (nbytes / 4)
  else copyBytes dst src nbytes
  pure dst

/-! ## The two loops -/

theorem aligned4_iff (ptr : UInt32) : aligned4 ptr = true ↔ ptr.toNat % 4 = 0 := by
  unfold aligned4 aligned
  rw [beq_iff_eq, ← UInt32.toNat_inj, UInt32.toNat_mod]
  rfl

theorem wordsP_iff (dst src nbytes : UInt32) :
    wordsP dst src nbytes = true ↔
      dst.toNat % 4 = 0 ∧ src.toNat % 4 = 0 ∧ nbytes.toNat % 4 = 0 := by
  simp [wordsP, aligned4_iff, and_assoc]

variable {dst src nbytes : UInt32}

/-- After `i` rounds the first `i` bytes are copied. -/
theorem copyBytes_apply (apart : Apart dst.toNat src.toNat nbytes.toNat) (memory : Memory) :
    copyBytes dst src nbytes memory =
      .ok () (copied dst.toNat src.toNat nbytes.toNat memory) := by
  have step : ∀ i < nbytes.toNat,
      copyByte dst src i (copied dst.toNat src.toNat i memory) =
        .ok () (copied dst.toNat src.toNat (i + 1) memory) := by
    intro i inside
    rw [copyByte, Prog.bind_of_ok (load8_apply _ _)]
    exact store8_copied (apart.mono inside)
  have rounds := Prog.forLoop_of_steps step
  rw [copied_zero] at rounds
  exact rounds

/-- After `i` rounds the first `4 * i` bytes are copied. -/
theorem copyWords_apply (apart : Apart dst.toNat src.toNat nbytes.toNat)
    (words : wordsP dst src nbytes = true) (memory : Memory) :
    copyWords dst src (nbytes / 4) memory =
      .ok () (copied dst.toNat src.toNat nbytes.toNat memory) := by
  obtain ⟨alignedDst, alignedSrc, alignedSize⟩ := (wordsP_iff dst src nbytes).mp words
  have count : (nbytes / 4).toNat = nbytes.toNat / 4 := UInt32.toNat_div nbytes 4
  have step : ∀ i < (nbytes / 4).toNat,
      copyWord dst src i (copied dst.toNat src.toNat (4 * i) memory) =
        .ok () (copied dst.toNat src.toNat (4 * (i + 1)) memory) := by
    intro i inside
    rw [copyWord, Prog.bind_of_ok (load32_apply (by omega) _)]
    exact store32_copied (apart.mono (by omega)) (by omega)
  have whole : 4 * (nbytes / 4).toNat = nbytes.toNat := by omega
  have rounds := Prog.forLoop_of_steps step
  rw [Nat.mul_zero, copied_zero, whole] at rounds
  exact rounds

/-- For regions that share no byte, `memcpy` copies exactly the region, and both
of its branches do. -/
theorem memcpy_copies (apart : Apart dst.toNat src.toNat nbytes.toNat) (memory : Memory) :
    ∃ after, memcpy dst src nbytes memory = .ok dst after ∧
      (∀ i < nbytes.toNat, after (dst.toNat + i) = memory (src.toNat + i)) ∧
      (∀ a, (∀ i < nbytes.toNat, a ≠ dst.toNat + i) → after a = memory a) ∧
      copyBytes dst src nbytes memory = .ok () after ∧
      (wordsP dst src nbytes = true → copyWords dst src (nbytes / 4) memory = .ok () after) := by
  have bytes := copyBytes_apply apart memory
  refine ⟨_, ?_, fun i inside => copied_inside inside, ?_, bytes,
    fun words => copyWords_apply apart words memory⟩
  · unfold memcpy
    by_cases words : wordsP dst src nbytes = true
    · rw [if_pos words, Prog.bind_of_ok (copyWords_apply apart words memory)]
      rfl
    · rw [if_neg words, Prog.bind_of_ok bytes]
      rfl
  · intro a outside
    apply copied_outside
    rintro ⟨above, below⟩
    exact outside (a - dst.toNat) (by omega) (by omega)

/-- Eight bytes in words, and five bytes one by one. -/
theorem memcpy_copies_of_both :
    (∃ after, memcpy 4 16 8 (fun a => UInt8.ofNat a) = .ok 4 after ∧ after 11 = 23) ∧
      ∃ after, memcpy 4 16 5 (fun a => UInt8.ofNat a) = .ok 4 after ∧ after 8 = 20 := by
  have apart8 : Apart (4 : UInt32).toNat (16 : UInt32).toNat (8 : UInt32).toNat :=
    .inl (by decide)
  have apart5 : Apart (4 : UInt32).toNat (16 : UInt32).toNat (5 : UInt32).toNat :=
    .inl (by decide)
  obtain ⟨words, ranWords, copiedWords, -⟩ := memcpy_copies apart8 fun a => UInt8.ofNat a
  obtain ⟨bytes, ranBytes, copiedBytes, -⟩ := memcpy_copies apart5 fun a => UInt8.ofNat a
  exact ⟨⟨words, ranWords, copiedWords 7 (by decide)⟩, ⟨bytes, ranBytes, copiedBytes 4 (by decide)⟩⟩

end Cs140e.Libpi.Memcpy
