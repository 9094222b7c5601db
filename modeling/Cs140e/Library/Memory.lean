import Cs140e.Library.LittleEndian
import Cs140e.Library.Prog

/-!
# Memory with byte addresses

Bytes and little-endian words are loaded and stored.  A word is only accessed at
a multiple of four.  `copied` is the memory in which a region has got the
content of another one, and both kinds of stores make a copy longer.
-/

namespace Cs140e.Library

/-- The byte at every address. -/
abbrev Memory := Nat → UInt8

namespace Memory

def load8 (p : Nat) : Prog Memory UInt8 := fun memory => .ok (memory p) memory

def store8 (p : Nat) (c : UInt8) : Prog Memory Unit := fun memory =>
  .ok () (Function.update memory p c)

def wordAt (memory : Memory) (p : Nat) : UInt32 :=
  LittleEndian.wordOf [memory p, memory (p + 1), memory (p + 2), memory (p + 3)]

/-- The memory after bytes were put at an address. -/
def put (memory : Memory) (p : Nat) (bytes : List UInt8) : Memory := fun a =>
  if a < p then memory a else (bytes[a - p]?).getD (memory a)

def load32 (p : Nat) : Prog Memory UInt32 := fun memory =>
  if p % 4 = 0 then .ok (wordAt memory p) memory
  else .error (.undefined "a word that is not aligned") memory

def store32 (p : Nat) (word : UInt32) : Prog Memory Unit := fun memory =>
  if p % 4 = 0 then .ok () (put memory p (LittleEndian.bytesOf word))
  else .error (.undefined "a word that is not aligned") memory

variable {memory : Memory} {p : Nat}

theorem put_outside {bytes : List UInt8} {a : Nat}
    (outside : a < p ∨ p + bytes.length ≤ a) : put memory p bytes a = memory a := by
  unfold put
  split
  · rfl
  · rw [List.getElem?_eq_none (by omega)]
    rfl

theorem put_inside {bytes : List UInt8} {i : Nat} {c : UInt8} (found : bytes[i]? = some c) :
    put memory p bytes (p + i) = c := by
  unfold put
  rw [if_neg (by omega), Nat.add_sub_cancel_left, found]
  rfl

/-! ## Regions -/

/-- Two regions of `n` bytes that share none. -/
def Apart (dst src n : Nat) : Prop := dst + n ≤ src ∨ src + n ≤ dst

theorem Apart.mono {dst src n m : Nat} (apart : Apart dst src n) (le : m ≤ n) :
    Apart dst src m := by
  unfold Apart at apart ⊢
  omega

/-- The memory after `n` bytes were copied. -/
def copied (dst src n : Nat) (memory : Memory) : Memory := fun a =>
  if dst ≤ a ∧ a < dst + n then memory (src + (a - dst)) else memory a

variable {dst src n : Nat}

theorem copied_inside {i : Nat} (inside : i < n) :
    copied dst src n memory (dst + i) = memory (src + i) := by
  unfold copied
  rw [if_pos (by omega), Nat.add_sub_cancel_left]

theorem copied_outside {a : Nat} (outside : ¬ (dst ≤ a ∧ a < dst + n)) :
    copied dst src n memory a = memory a := if_neg outside

@[simp]
theorem copied_zero : copied dst src 0 memory = memory := by
  funext a
  exact copied_outside (by omega)

/-- The copy does not reach what is still to be copied. -/
theorem copied_source {m i : Nat} (apart : Apart dst src m) (inside : n + i < m) :
    copied dst src n memory (src + (n + i)) = memory (src + (n + i)) := by
  unfold Apart at apart
  exact copied_outside (by omega)

/-- The next bytes behind a copy. -/
theorem put_copied {bytes : List UInt8}
    (next : ∀ i < bytes.length, bytes[i]? = some (memory (src + (n + i)))) :
    put (copied dst src n memory) (dst + n) bytes = copied dst src (n + bytes.length) memory := by
  funext a
  rcases Nat.lt_or_ge a (dst + n) with before | behind
  · rw [put_outside (.inl before)]
    unfold copied
    simp only [show a < dst + n ↔ a < dst + (n + bytes.length) by omega]
  · obtain ⟨i, rfl⟩ := Nat.exists_eq_add_of_le behind
    rcases Nat.lt_or_ge i bytes.length with inside | outside
    · rw [put_inside (next i inside), Nat.add_assoc, copied_inside (by omega)]
    · rw [put_outside (.inr (by omega)), copied_outside (by omega), copied_outside (by omega)]

theorem update_eq_put (c : UInt8) : Function.update memory p c = put memory p [c] := by
  funext a
  by_cases same : a = p
  · subst same
    have inside : put memory a [c] (a + 0) = c := put_inside rfl
    rw [Function.update_self]
    exact inside.symm
  · rw [Function.update_of_ne same, put_outside]
    simp
    omega

/-- The bytes of the word at an address are the bytes there. -/
theorem bytesOf_wordAt :
    LittleEndian.bytesOf (wordAt memory p) =
      [memory p, memory (p + 1), memory (p + 2), memory (p + 3)] :=
  LittleEndian.bytesOf_wordOf _ _ _ _

theorem load8_apply (p : Nat) (memory : Memory) :
    load8 p memory = .ok (memory p) memory := rfl

theorem load32_apply (aligned : p % 4 = 0) (memory : Memory) :
    load32 p memory = .ok (wordAt memory p) memory := if_pos aligned

/-- A byte that is copied. -/
theorem store8_copied (apart : Apart dst src (n + 1)) :
    store8 (dst + n) (copied dst src n memory (src + n)) (copied dst src n memory) =
      .ok () (copied dst src (n + 1) memory) := by
  have kept : copied dst src n memory (src + (n + 0)) = memory (src + (n + 0)) :=
    copied_source apart (Nat.lt_succ_self n)
  rw [Nat.add_zero] at kept
  have longer : put (copied dst src n memory) (dst + n) [memory (src + n)] =
      copied dst src (n + 1) memory := by
    apply put_copied
    intro i inside
    obtain rfl := Nat.lt_one_iff.mp inside
    rfl
  rw [store8, kept, update_eq_put, longer]

/-- A word that is copied. -/
theorem store32_copied (apart : Apart dst src (n + 4)) (aligned : (dst + n) % 4 = 0) :
    store32 (dst + n) (wordAt (copied dst src n memory) (src + n)) (copied dst src n memory) =
      .ok () (copied dst src (n + 4) memory) := by
  have kept : ∀ i < 4, copied dst src n memory (src + (n + i)) = memory (src + (n + i)) :=
    fun i inside => copied_source apart (by omega)
  have longer : put (copied dst src n memory) (dst + n)
      [copied dst src n memory (src + n), copied dst src n memory (src + n + 1),
        copied dst src n memory (src + n + 2), copied dst src n memory (src + n + 3)] =
      copied dst src (n + 4) memory := by
    apply put_copied
    intro i inside
    rw [← kept i inside]
    match i, inside with
    | 0, _ | 1, _ | 2, _ | 3, _ => rfl
  rw [store32, if_pos aligned, bytesOf_wordAt, longer]

end Memory

end Cs140e.Library
