import Cs140e.Library.Feedback
import Mathlib.Data.Nat.ModEq
import Mathlib.Tactic.NormNum.Prime

/-!
# The random numbers of libpi

`rpi-rand.c` shifts a register of sixteen bits.  The C compiler may evaluate the
two calls of `rpi_rand32` in either order, so the order is an argument here.
-/

namespace Cs140e.Libpi.Rand

open Library

/-- The variables `lfsr` and `bit`. -/
structure State where
  lfsr : BitVec 16
  bit : BitVec 32
  deriving DecidableEq, Repr

def initialSeed : BitVec 16 := 0xACE1#16

def State.initial : State where
  lfsr := initialSeed
  bit := 0#32

/-- `((lfsr >> 0) ^ (lfsr >> 2) ^ (lfsr >> 3) ^ (lfsr >> 5)) & 1`, on promoted values. -/
def nextBit (lfsr : BitVec 16) : BitVec 32 :=
  let wide := lfsr.setWidth 32
  ((wide >>> 0) ^^^ (wide >>> 2) ^^^ (wide >>> 3) ^^^ (wide >>> 5)) &&& 1#32

/-- `(lfsr >> 1) | (bit << 15)`, cut to an `unsigned short`. -/
def nextLfsr (lfsr : BitVec 16) : BitVec 16 :=
  ((lfsr.setWidth 32 >>> 1) ||| (nextBit lfsr <<< 15)).setWidth 16

def rpiRand16 (s : State) : BitVec 16 × State :=
  let next : State := { lfsr := nextLfsr s.lfsr, bit := nextBit s.lfsr }
  (next.lfsr, next)

/-- `(rpi_rand16() << 16) | rpi_rand16()`, the left call first or second. -/
def rpiRand32 (leftFirst : Bool) (s : State) : BitVec 32 × State :=
  let first := rpiRand16 s
  let second := rpiRand16 first.2
  let left := if leftFirst then first.1 else second.1
  let right := if leftFirst then second.1 else first.1
  ((left.setWidth 32 <<< 16) ||| right.setWidth 32, second.2)

/-- `rpi_reset` ignores the seed it is given. -/
def rpiReset (_seed : BitVec 32) (s : State) : State := { s with lfsr := initialSeed }

/-! ## The register -/

/-- The bit that is shifted in at the top. -/
def fed (lfsr : BitVec 16) : Bool :=
  lfsr.getLsbD 0 ^^ lfsr.getLsbD 2 ^^ lfsr.getLsbD 3 ^^ lfsr.getLsbD 5

theorem fed_xor (x y : BitVec 16) : fed (x ^^^ y) = (fed x ^^ fed y) := by
  simp only [fed, BitVec.getLsbD_xor, Bool.xor_assoc, Bool.xor_left_comm]

theorem nextBit_getLsbD (lfsr : BitVec 16) (i : Nat) :
    (nextBit lfsr).getLsbD i = (decide (i = 0) && fed lfsr) := by
  cases i with
  | zero => simp [nextBit, fed]
  | succ i => simp [nextBit]

theorem nextLfsr_getLsbD (lfsr : BitVec 16) {i : Nat} (low : i < 16) :
    (nextLfsr lfsr).getLsbD i = if i = 15 then fed lfsr else lfsr.getLsbD (i + 1) := by
  by_cases top : i = 15
  · have shifted := nextBit_getLsbD lfsr 0
    subst top
    simpa [nextLfsr] using shifted
  · have below : i < 15 := by omega
    simp [nextLfsr, top, below, low, Nat.add_comm]
    omega

/-- The register of `rpi-rand.c`. -/
def register : Feedback 16 where
  step := nextLfsr
  step_xor x y := by
    apply BitVec.eq_of_getLsbD_eq
    intro i low
    rw [BitVec.getLsbD_xor, nextLfsr_getLsbD _ low, nextLfsr_getLsbD _ low, nextLfsr_getLsbD _ low]
    by_cases top : i = 15
    · simp only [top, if_true, fed_xor]
    · simp only [top, if_false, BitVec.getLsbD_xor]

theorem register_check :
    Feedback.PeriodCheck register 16 0x2D 16 65535 [3, 5, 17, 257] 1#16 where
  wide := by decide
  recurrence := ⟨by decide, by decide +kernel⟩
  few := by decide
  primes_prime := by
    intro p member
    simp only [List.mem_cons, List.not_mem_nil, or_false] at member
    rcases member with rfl | rfl | rfl | rfl <;> norm_num
  primes_prod := by decide
  back := by decide +kernel
  apart := by decide +kernel

theorem register_period {lfsr : BitVec 16} (nonzero : lfsr ≠ 0#16) :
    Function.minimalPeriod nextLfsr lfsr = 65535 :=
  Feedback.minimalPeriod_of_full (by decide) register_check.minimalPeriod (by decide) nonzero

/-! ## Draws -/

/-- The state after `k` calls of `rpi_rand16`. -/
def after (s : State) (k : Nat) : State := (fun s => (rpiRand16 s).2)^[k] s

/-- What the call number `k` of `rpi_rand16` returns, counted from zero. -/
def draw16 (s : State) (k : Nat) : BitVec 16 := (rpiRand16 (after s k)).1

/-- What the call number `k` of `rpi_rand32` returns. -/
def draw32 (leftFirst : Bool) (s : State) (k : Nat) : BitVec 32 :=
  (rpiRand32 leftFirst ((fun s => (rpiRand32 leftFirst s).2)^[k] s)).1

theorem after_lfsr (s : State) (k : Nat) : (after s k).lfsr = nextLfsr^[k] s.lfsr := by
  induction k generalizing s with
  | zero => rfl
  | succ k ih => exact ih (rpiRand16 s).2

theorem draw16_eq (s : State) (k : Nat) : draw16 s k = nextLfsr^[k + 1] s.lfsr := by
  rw [Function.iterate_succ_apply', ← after_lfsr]
  rfl

theorem iterate_rpiRand32 (leftFirst : Bool) (s : State) (k : Nat) :
    (fun s => (rpiRand32 leftFirst s).2)^[k] s = after s (2 * k) := by
  induction k generalizing s with
  | zero => rfl
  | succ k ih => exact ih (rpiRand32 leftFirst s).2

/-- The two halves of a number are results of `rpi_rand16`, one call apart. -/
theorem draw32_eq (leftFirst : Bool) (s : State) (k : Nat) :
    draw32 leftFirst s k =
      ((if leftFirst then draw16 s (2 * k) else draw16 s (2 * k + 1)).setWidth 32 <<< 16) |||
        (if leftFirst then draw16 s (2 * k + 1) else draw16 s (2 * k)).setWidth 32 := by
  have next : (rpiRand16 (rpiRand16 (after s (2 * k))).2).1 = draw16 s (2 * k + 1) := by
    unfold draw16 after
    rw [Function.iterate_succ_apply']
  rw [draw32, iterate_rpiRand32, rpiRand32, next]
  rfl

theorem halves_inj {a b c d : BitVec 16}
    (same : (a.setWidth 32 <<< 16) ||| b.setWidth 32 = (c.setWidth 32 <<< 16) ||| d.setWidth 32) :
    a = c ∧ b = d := by
  have bits (i : Nat) := congrArg (BitVec.getLsbD · i) same
  constructor
  · apply BitVec.eq_of_getLsbD_eq
    intro i low
    have bit := bits (16 + i)
    simpa [low, show 16 + i < 32 by omega] using bit
  · apply BitVec.eq_of_getLsbD_eq
    intro i low
    have bit := bits i
    simpa [low, show i < 32 by omega] using bit

theorem draw16_eq_iff {s : State} (nonzero : s.lfsr ≠ 0#16) (i j : Nat) :
    draw16 s i = draw16 s j ↔ i % 65535 = j % 65535 := by
  rw [draw16_eq, draw16_eq, Feedback.iterate_eq_iff_mod (by decide) (register_period nonzero)]
  exact ⟨Nat.ModEq.add_right_cancel' 1, Nat.ModEq.add_right 1⟩

/-- Two calls further on for each number, the same numbers come back together. -/
theorem draw16_double_iff {s : State} (nonzero : s.lfsr ≠ 0#16) (i j c : Nat) :
    draw16 s (2 * i + c) = draw16 s (2 * j + c) ↔ i % 65535 = j % 65535 := by
  rw [draw16_eq_iff nonzero]
  constructor
  · intro same
    have doubled : 2 * i ≡ 2 * j [MOD 65535] := Nat.ModEq.add_right_cancel' c same
    exact Nat.ModEq.cancel_left_of_coprime (by decide) doubled
  · intro same
    exact Nat.ModEq.add_right c (Nat.ModEq.mul_left 2 same)

/-- `rpi_rand16` returns every value but zero once in 65535 calls, in an order that repeats,
and `rpi_rand32` repeats after as many calls and not before. -/
theorem rpi_rand_visits_every (s : State) (nonzero : s.lfsr ≠ 0#16) (leftFirst : Bool) :
    (∀ k, draw16 s k ≠ 0#16) ∧
      (∀ value, value ≠ 0#16 → ∃! k, k < 65535 ∧ draw16 s k = value) ∧
      (∀ i j, draw16 s i = draw16 s j ↔ i % 65535 = j % 65535) ∧
      ∀ i j, draw32 leftFirst s i = draw32 leftFirst s j ↔ i % 65535 = j % 65535 := by
  have periodic : 0 < Function.minimalPeriod register.step s.lfsr := by
    rw [show Function.minimalPeriod register.step s.lfsr = 65535 from register_period nonzero]
    decide
  have nowhere (k : Nat) : draw16 s k ≠ 0#16 := by
    rw [draw16_eq]
    exact Feedback.iterate_ne_zero nonzero periodic (k + 1)
  refine ⟨nowhere, ?_, draw16_eq_iff nonzero, ?_⟩
  · intro value other
    have first : nextLfsr s.lfsr ≠ 0#16 := Feedback.iterate_ne_zero nonzero periodic 1
    obtain ⟨k, low, reached⟩ :=
      Feedback.reaches_every (r := register) first (register_period first) (by decide) other
    refine ⟨k, ⟨low, ?_⟩, ?_⟩
    · rw [draw16_eq, Function.iterate_succ_apply]
      exact reached
    · rintro j ⟨small, again⟩
      have same : draw16 s j = draw16 s k := by
        rw [again, draw16_eq, Function.iterate_succ_apply]
        exact reached.symm
      have equal := (draw16_eq_iff nonzero j k).mp same
      rw [Nat.mod_eq_of_lt small, Nat.mod_eq_of_lt (show k < 65535 from low)] at equal
      exact equal
  · intro i j
    rw [draw32_eq, draw32_eq]
    constructor
    · intro same
      obtain ⟨high, low⟩ := halves_inj same
      apply (draw16_double_iff nonzero i j 0).mp
      cases leftFirst with
      | true => exact high
      | false => exact low
    · intro same
      have first := (draw16_double_iff nonzero i j 0).mpr same
      have second := (draw16_double_iff nonzero i j 1).mpr same
      rw [Nat.add_zero, Nat.add_zero] at first
      rw [first, second]

theorem rpi_rand_visits_every_initial :
    ∃! k, k < 65535 ∧ draw16 State.initial k = initialSeed :=
  (rpi_rand_visits_every State.initial (by decide) true).2.1 initialSeed (by decide)

end Cs140e.Libpi.Rand
