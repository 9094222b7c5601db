import Cs140e.Library.Feedback

/-!
# Lagged sums

A window of `deg` items moves along a stream in which every item is the sum of
the items `deg` and `sep` places before it.  A table of `deg` slots that is
written round and round holds such a window.  The lowest bits of a stream of
words are the bits a linear feedback register shifts out.
-/

namespace Cs140e.Library.Lagged

section

variable {α : Type} [Add α] {deg sep : Nat}

/-- The window one place further. -/
def advance (deg sep : Nat) (window : Nat → α) : Nat → α := fun i =>
  if i + 1 < deg then window (i + 1) else window 0 + window (deg - sep)

/-- The stream that starts with the items of the window. -/
def stream (deg sep : Nat) (window : Nat → α) (n : Nat) : α := (advance deg sep)^[n] window 0

theorem iterate_advance_apply (window : Nat → α) (n : Nat) {i : Nat} (inside : i < deg) :
    (advance deg sep)^[n] window i = stream deg sep window (n + i) := by
  induction i generalizing n with
  | zero => rfl
  | succ i ih =>
      have moved : (advance deg sep)^[n] window (i + 1) = (advance deg sep)^[n + 1] window i := by
        rw [Function.iterate_succ_apply', advance, if_pos inside]
      rw [moved, ih (n + 1) (Nat.lt_of_succ_lt inside), Nat.add_right_comm, Nat.add_assoc]

theorem stream_of_lt (window : Nat → α) {n : Nat} (inside : n < deg) :
    stream deg sep window n = window n := by
  have start : window n = stream deg sep window (0 + n) := iterate_advance_apply window 0 inside
  rw [Nat.zero_add] at start
  exact start.symm

theorem stream_advance (window : Nat → α) (k n : Nat) :
    stream deg sep ((advance deg sep)^[k] window) n = stream deg sep window (k + n) := by
  rw [stream, stream, ← Function.iterate_add_apply, Nat.add_comm]

/-- Every item is the sum of the ones `deg` and `sep` places back. -/
theorem stream_add (window : Nat → α) (positive : 0 < sep) (less : sep < deg) (n : Nat) :
    stream deg sep window (n + deg) =
      stream deg sep window n + stream deg sep window (n + (deg - sep)) := by
  have last : (advance deg sep)^[n + 1] window (deg - 1) = stream deg sep window _ :=
    iterate_advance_apply window (n + 1) (by omega)
  rw [Function.iterate_succ_apply', advance, if_neg (by omega),
    iterate_advance_apply window n (by omega), iterate_advance_apply window n (by omega),
    show n + 1 + (deg - 1) = n + deg by omega] at last
  exact last.symm

/-- The table holds the window, from slot `front` on. -/
def Holds (deg : Nat) (table : Nat → α) (front : Nat) (window : Nat → α) : Prop :=
  ∀ i < deg, table ((front + i) % deg) = window i

/-- Adding the slot `deg - sep` further on to the front slot moves the window. -/
theorem Holds.step {table window : Nat → α} {front : Nat} (positive : 0 < sep)
    (less : sep < deg) (inside : front < deg) (holds : Holds deg table front window) :
    Holds deg
      (Function.update table front (table front + table ((front + (deg - sep)) % deg)))
      ((front + 1) % deg) (advance deg sep window) := by
  have start : table front = window 0 := by
    have slot := holds 0 (by omega)
    rwa [Nat.add_zero, Nat.mod_eq_of_lt inside] at slot
  intro i low
  rw [Nat.mod_add_mod, Nat.add_assoc, Nat.add_comm 1 i]
  by_cases more : i + 1 < deg
  · have other : (front + (i + 1)) % deg ≠ front := by
      by_cases wraps : front + (i + 1) < deg
      · rw [Nat.mod_eq_of_lt wraps]
        omega
      · rw [Nat.mod_eq_sub_mod (by omega), Nat.mod_eq_of_lt (by omega)]
        omega
    rw [Function.update_of_ne other, holds (i + 1) more, advance, if_pos more]
  · rw [show front + (i + 1) = front + deg by omega, Nat.add_mod_right, Nat.mod_eq_of_lt inside,
      Function.update_self, start, holds (deg - sep) (by omega), advance, if_neg more]

end

/-! ## Lowest bits -/

section

variable {w deg sep : Nat}

/-- The bit that is shifted in at the top. -/
def fed (sep : Nat) (bits : BitVec deg) : Bool := bits.getLsbD 0 ^^ bits.getLsbD (deg - sep)

def shift (sep : Nat) (bits : BitVec deg) : BitVec deg :=
  (bits >>> 1) ^^^ (if fed sep bits then BitVec.ofNat deg 1 <<< (deg - 1) else BitVec.ofNat deg 0)

theorem shift_getLsbD (bits : BitVec deg) {i : Nat} (inside : i < deg) :
    (shift sep bits).getLsbD i = if i + 1 < deg then bits.getLsbD (i + 1) else fed sep bits := by
  rw [shift, BitVec.getLsbD_xor, BitVec.getLsbD_ushiftRight, Nat.add_comm]
  by_cases more : i + 1 < deg
  · rw [if_pos more]
    split
    · simp [BitVec.getLsbD_shiftLeft, show i < deg - 1 by omega]
    · simp
  · rw [if_neg more, BitVec.getLsbD_of_ge bits (i + 1) (by omega), Bool.false_xor]
    obtain rfl : i = deg - 1 := by omega
    split
    · rename_i yes
      simp [yes, inside]
    · rename_i no
      simp [no]

/-- The register that makes the lowest bits of a lagged sum. -/
def bitRegister (deg sep : Nat) : Feedback deg where
  step := shift sep
  step_xor x y := by
    apply BitVec.eq_of_getLsbD_eq
    intro i inside
    rw [BitVec.getLsbD_xor, shift_getLsbD _ inside, shift_getLsbD _ inside,
      shift_getLsbD _ inside]
    by_cases more : i + 1 < deg
    · simp only [more, if_true, BitVec.getLsbD_xor]
    · simp only [more, if_false, fed, BitVec.getLsbD_xor, Bool.xor_assoc, Bool.xor_left_comm]

/-- The lowest bits of the words in the window. -/
def lowBits (deg : Nat) (window : Nat → BitVec w) : BitVec deg :=
  (BitVec.ofBoolListLE ((List.range deg).map fun i => (window i).getLsbD 0)).setWidth deg

theorem lowBits_getLsbD (window : Nat → BitVec w) {i : Nat} (inside : i < deg) :
    (lowBits deg window).getLsbD i = (window i).getLsbD 0 := by
  rw [lowBits, BitVec.getLsbD_setWidth, BitVec.getLsbD_ofBoolListLE, List.getD_eq_getElem?_getD]
  simp [inside]

theorem lowBits_advance (window : Nat → BitVec w) (wide : 0 < w) (positive : 0 < sep)
    (less : sep < deg) :
    lowBits deg (advance deg sep window) = shift sep (lowBits deg window) := by
  apply BitVec.eq_of_getLsbD_eq
  intro i inside
  rw [lowBits_getLsbD _ inside, shift_getLsbD _ inside, advance]
  by_cases more : i + 1 < deg
  · rw [if_pos more, if_pos more, lowBits_getLsbD _ more]
  · rw [if_neg more, if_neg more, fed, lowBits_getLsbD _ (show 0 < deg by omega),
      lowBits_getLsbD _ (show deg - sep < deg by omega), BitVec.getLsbD_add wide]
    simp

theorem lowBits_iterate (window : Nat → BitVec w) (wide : 0 < w) (positive : 0 < sep)
    (less : sep < deg) (k : Nat) :
    lowBits deg ((advance deg sep)^[k] window) = (shift sep)^[k] (lowBits deg window) := by
  induction k with
  | zero => rfl
  | succ k ih =>
      rw [Function.iterate_succ_apply', Function.iterate_succ_apply',
        lowBits_advance _ wide positive less, ih]

/-- If the register has a full orbit, the lowest bits repeat after `2 ^ deg - 1` places and
not before, unless all of them are zero. -/
theorem lowBits_repeat {window : Nat → BitVec w} (wide : 0 < w) (positive : 0 < sep)
    (less : sep < deg)
    (full : Function.minimalPeriod (bitRegister deg sep).step (BitVec.ofNat deg 1) = 2 ^ deg - 1)
    (odd : ∃ i < deg, (window i).getLsbD 0 = true) (i j : Nat) :
    (∀ k, (stream deg sep window (i + k)).getLsbD 0 = (stream deg sep window (j + k)).getLsbD 0) ↔
      i % (2 ^ deg - 1) = j % (2 ^ deg - 1) := by
  have room : 0 < 2 ^ deg - 1 := by
    have grows := Nat.one_lt_two_pow (show deg ≠ 0 by omega)
    omega
  have one : BitVec.ofNat deg 1 ≠ BitVec.ofNat deg 0 := by
    intro zero
    have bit := congrArg (BitVec.getLsbD · 0) zero
    simp [show 0 < deg by omega] at bit
  have nonzero : lowBits deg window ≠ BitVec.ofNat deg 0 := by
    obtain ⟨place, inside, set⟩ := odd
    intro zero
    have bit := lowBits_getLsbD window inside
    rw [zero, set] at bit
    simp at bit
  have period := Feedback.minimalPeriod_of_full one full room nonzero
  rw [← Feedback.iterate_eq_iff_mod room period]
  have bit (n k : Nat) (inside : k < deg) :
      ((shift sep)^[n] (lowBits deg window)).getLsbD k =
        (stream deg sep window (n + k)).getLsbD 0 := by
    rw [← lowBits_iterate window wide positive less, lowBits_getLsbD _ inside,
      iterate_advance_apply window n inside]
  constructor
  · intro same
    apply BitVec.eq_of_getLsbD_eq
    intro k inside
    exact (bit i k inside).trans ((same k).trans (bit j k inside).symm)
  · intro same k
    have start (n : Nat) := bit (n + k) 0 (by omega)
    simp only [Nat.add_zero, Nat.add_comm _ k, Function.iterate_add_apply] at start
    rw [Nat.add_comm i, Nat.add_comm j, ← start i, ← start j]
    exact congrArg (fun state => ((shift sep)^[k] state).getLsbD 0) same

end

end Cs140e.Library.Lagged
