import Mathlib.Algebra.Group.Nat.Defs
import Mathlib.Data.FinEnum
import Mathlib.Data.List.Prime
import Mathlib.Data.Nat.Prime.Basic
import Mathlib.Dynamics.PeriodicPts.Defs

/-!
# Linear feedback registers

A register of bits whose step commutes with exclusive or.  A bit mask selects
iterates of the step, and it stands for `k` steps from a value when the sum of
the selected iterates is the iterate number `k`.  Masks multiply modulo the
recurrence of the register, so the iterate with a number of `k` bits is reached
in `k` squarings, and the period of the register can be computed.
-/

namespace Cs140e.Library

structure Feedback (w : Nat) where
  step : BitVec w → BitVec w
  step_xor : ∀ x y, step (x ^^^ y) = step x ^^^ step y

namespace Feedback

variable {w : Nat} (r : Feedback w)

theorem step_zero : r.step 0#w = 0#w := by
  have twice := r.step_xor 0 0
  rwa [BitVec.xor_self, BitVec.xor_self] at twice

theorem iterate_zero (k : Nat) : r.step^[k] 0#w = 0#w := by
  induction k with
  | zero => rfl
  | succ k ih => rw [Function.iterate_succ_apply, step_zero, ih]

theorem iterate_xor (k : Nat) (x y : BitVec w) :
    r.step^[k] (x ^^^ y) = r.step^[k] x ^^^ r.step^[k] y := by
  induction k generalizing x y with
  | zero => rfl
  | succ k ih => simp only [Function.iterate_succ_apply, r.step_xor, ih]

/-! ## Masks of iterates -/

/-- The sum of the iterates of `x` that the low `n` bits of a mask select. -/
def combine : Nat → Nat → BitVec w → BitVec w
  | 0, _, _ => 0#w
  | n + 1, mask, x => (if mask % 2 = 1 then x else 0#w) ^^^ combine n (mask / 2) (r.step x)

theorem combine_zero_mask (n : Nat) (x : BitVec w) : r.combine n 0 x = 0#w := by
  induction n generalizing x with
  | zero => rfl
  | succ n ih => simp [combine, ih]

theorem combine_step (n mask : Nat) (x : BitVec w) :
    r.combine n mask (r.step x) = r.step (r.combine n mask x) := by
  induction n generalizing mask x with
  | zero => exact r.step_zero.symm
  | succ n ih =>
      by_cases odd : mask % 2 = 1
      · simp [combine, odd, ih, r.step_xor]
      · simp [combine, odd, ih]

theorem combine_iterate (n mask k : Nat) (x : BitVec w) :
    r.combine n mask (r.step^[k] x) = r.step^[k] (r.combine n mask x) := by
  induction k generalizing x with
  | zero => rfl
  | succ k ih => rw [Function.iterate_succ_apply, ih, combine_step, Function.iterate_succ_apply]

theorem combine_xor (n a b : Nat) (x : BitVec w) :
    r.combine n (a ^^^ b) x = r.combine n a x ^^^ r.combine n b x := by
  induction n generalizing a b x with
  | zero => simp [combine]
  | succ n ih =>
      unfold combine
      rw [Nat.xor_div_two, ih]
      by_cases first : a % 2 = 1 <;> by_cases second : b % 2 = 1
      · simp only [Nat.xor_mod_two_eq_one, first, second, not_true_eq_false, if_true, if_false]
        rw [BitVec.zero_xor, BitVec.xor_comm x, BitVec.xor_assoc, ← BitVec.xor_assoc x,
          BitVec.xor_self, BitVec.zero_xor]
      · simp only [Nat.xor_mod_two_eq_one, first, second, if_true, if_false, iff_false,
          not_true_eq_false, not_false_eq_true, BitVec.zero_xor, BitVec.xor_assoc]
      · simp only [Nat.xor_mod_two_eq_one, first, second, if_true, if_false, false_iff,
          not_true_eq_false, not_false_eq_true]
        ac_rfl
      · simp only [Nat.xor_mod_two_eq_one, first, second, if_false, not_true_eq_false,
          BitVec.zero_xor]

theorem combine_succ (n mask : Nat) (x : BitVec w) :
    r.combine (n + 1) mask x =
      r.combine n mask x ^^^ (if mask.testBit n then r.step^[n] x else 0#w) := by
  induction n generalizing mask x with
  | zero => simp [combine]
  | succ n ih =>
      rw [combine, ih, combine, Nat.testBit_div_two, Function.iterate_succ_apply, BitVec.xor_assoc]

theorem combine_mod (n mask : Nat) (x : BitVec w) :
    r.combine n (mask % 2 ^ n) x = r.combine n mask x := by
  induction n generalizing mask x with
  | zero => rfl
  | succ n ih =>
      have parity : mask % 2 ^ (n + 1) % 2 = mask % 2 :=
        Nat.mod_mod_of_dvd mask (Dvd.intro_left (2 ^ n) rfl)
      have rest : mask % 2 ^ (n + 1) / 2 = mask / 2 % 2 ^ n := by
        rw [Nat.pow_succ, Nat.mul_comm, Nat.mod_mul_right_div_self]
      rw [combine, combine, parity, rest, ih]

/-! ## Masks modulo the recurrence -/

section

variable {r} {n taps : Nat} {x : BitVec w}

/-- Twice the mask, one step further. -/
def timesStep (n taps mask : Nat) : Nat :=
  (2 * mask) % 2 ^ n ^^^ (if 2 ^ n ≤ 2 * mask then taps else 0)

/-- The product of two masks; `k` bounds the bits of the first one. -/
def timesMask (n taps : Nat) : Nat → Nat → Nat → Nat
  | 0, _, _ => 0
  | k + 1, a, b =>
      (if a % 2 = 1 then b else 0) ^^^ timesMask n taps k (a / 2) (timesStep n taps b)

/-- `mask` stands for `k` steps from `x`. -/
structure Stands (r : Feedback w) (n mask k : Nat) (x : BitVec w) : Prop where
  bounded : mask < 2 ^ n
  combined : r.combine n mask x = r.step^[k] x

theorem timesStep_lt (bounded : taps < 2 ^ n) (mask : Nat) : timesStep n taps mask < 2 ^ n := by
  unfold timesStep
  apply Nat.xor_lt_two_pow (Nat.mod_lt _ (Nat.two_pow_pos n))
  split
  · exact bounded
  · exact Nat.two_pow_pos n

theorem combine_timesStep (recurrence : Stands r n taps n x) {mask : Nat}
    (small : mask < 2 ^ n) :
    r.combine n (timesStep n taps mask) x = r.step (r.combine n mask x) := by
  have high : (2 * mask).testBit n = decide (2 ^ n ≤ 2 * mask) := by
    have digit : 2 * mask / 2 ^ n < 2 := Nat.div_lt_of_lt_mul (by omega)
    by_cases reached : 2 ^ n ≤ 2 * mask
    · have positive : 0 < 2 * mask / 2 ^ n := Nat.div_pos reached (Nat.two_pow_pos n)
      simp [Nat.testBit_eq_decide_div_mod_eq, reached, show 2 * mask / 2 ^ n = 1 by omega]
    · rw [Nat.testBit_lt_two_pow (Nat.lt_of_not_le reached)]
      simp [reached]
  have doubled : r.combine (n + 1) (2 * mask) x = r.step (r.combine n mask x) := by
    rw [combine, Nat.mul_div_right mask Nat.two_pos, combine_step, Nat.mul_mod_right]
    simp
  rw [← doubled, combine_succ, timesStep, combine_xor, combine_mod, high]
  by_cases reached : 2 ^ n ≤ 2 * mask
  · simp [reached, recurrence.combined]
  · simp [reached, combine_zero_mask]

theorem timesMask_lt (bounded : taps < 2 ^ n) (k a : Nat) {b : Nat} (small : b < 2 ^ n) :
    timesMask n taps k a b < 2 ^ n := by
  induction k generalizing a b with
  | zero => exact Nat.two_pow_pos n
  | succ k ih =>
      unfold timesMask
      apply Nat.xor_lt_two_pow _ (ih (a / 2) (timesStep_lt bounded b))
      split
      · exact small
      · exact Nat.two_pow_pos n

theorem combine_timesMask (recurrence : Stands r n taps n x) (k a : Nat) {b : Nat}
    (small : b < 2 ^ n) :
    r.combine n (timesMask n taps k a b) x = r.combine k a (r.combine n b x) := by
  induction k generalizing a b with
  | zero => exact r.combine_zero_mask n x
  | succ k ih =>
      rw [timesMask, combine, combine_xor, ih (a / 2) (timesStep_lt recurrence.bounded b),
        combine_timesStep recurrence small]
      by_cases odd : a % 2 = 1
      · simp [odd]
      · simp [odd, combine_zero_mask]

theorem Stands.times (recurrence : Stands r n taps n x) {a b i j : Nat}
    (first : Stands r n a i x) (second : Stands r n b j x) :
    Stands r n (timesMask n taps n a b) (i + j) x where
  bounded := timesMask_lt recurrence.bounded n a second.bounded
  combined := by
    rw [combine_timesMask recurrence n a second.bounded, second.combined, combine_iterate,
      first.combined, ← Function.iterate_add_apply, Nat.add_comm]

/-- The mask of `base` taken `e` times on top of `product`; `k` bounds the bits of `e`. -/
def powerMask (n taps : Nat) : Nat → Nat → Nat → Nat → Nat
  | 0, _, _, product => product
  | k + 1, e, base, product =>
      powerMask n taps k (e / 2) (timesMask n taps n base base)
        (if e % 2 = 1 then timesMask n taps n base product else product)

theorem Stands.power (recurrence : Stands r n taps n x) (k : Nat) {e base product i j : Nat}
    (few : e < 2 ^ k) (first : Stands r n base i x) (second : Stands r n product j x) :
    Stands r n (powerMask n taps k e base product) (i * e + j) x := by
  induction k generalizing e base product i j with
  | zero =>
      rw [show e = 0 by omega, Nat.mul_zero, Nat.zero_add]
      exact second
  | succ k ih =>
      have half : e / 2 < 2 ^ k := by
        rw [Nat.pow_succ] at few
        omega
      have squared := Stands.times recurrence first first
      have halves : (i + i) * (e / 2) = i * (2 * (e / 2)) := by
        rw [← Nat.two_mul, Nat.mul_assoc, Nat.mul_left_comm]
      unfold powerMask
      by_cases odd : e % 2 = 1
      · rw [if_pos odd]
        have whole : i * e = i * (2 * (e / 2)) + i := by
          rw [← Nat.mul_succ, show (2 * (e / 2)).succ = e by omega]
        have rest := ih half squared (Stands.times recurrence first second)
        rwa [halves, ← Nat.add_assoc, ← whole] at rest
      · rw [if_neg odd]
        have whole : 2 * (e / 2) = e := by omega
        have rest := ih half squared second
        rwa [halves, whole] at rest

/-- The mask of `e` steps, where `k` bounds the bits of `e`. -/
def stepsMask (n taps k e : Nat) : Nat := powerMask n taps k e 2 1

theorem stepsMask_stands (recurrence : Stands r n taps n x) (wide : 2 ≤ n) {k e : Nat}
    (few : e < 2 ^ k) : Stands r n (stepsMask n taps k e) e x := by
  obtain ⟨n, rfl⟩ := Nat.exists_eq_add_of_le' wide
  have room : 4 ≤ 2 ^ (n + 2) := by
    rw [Nat.pow_add]
    exact Nat.le_mul_of_pos_left 4 (Nat.two_pow_pos n)
  have once : Stands r (n + 2) 2 1 x :=
    ⟨by omega, by simp [combine, combine_zero_mask]⟩
  have none : Stands r (n + 2) 1 0 x :=
    ⟨by omega, by simp [combine, combine_zero_mask]⟩
  simpa [stepsMask] using Stands.power recurrence k few once none

/-! ## Periods -/

/-- What has to be computed for the period of a register: `taps` is its recurrence, the
steps of the period lead back, and no step number with one prime divided out does. -/
structure PeriodCheck (r : Feedback w) (n taps k period : Nat) (primes : List Nat)
    (x : BitVec w) : Prop where
  wide : 2 ≤ n
  recurrence : Stands r n taps n x
  few : period < 2 ^ k
  primes_prime : ∀ p ∈ primes, Nat.Prime p
  primes_prod : primes.prod = period
  back : r.combine n (stepsMask n taps k period) x = x
  apart : ∀ p ∈ primes, r.combine n (stepsMask n taps k (period / p)) x ≠ x

end

/-- A period that no prime factor can be divided out of is the least one. -/
theorem minimalPeriod_eq_of_primes {α : Type*} {f : α → α} {x : α} {n : Nat}
    (back : f^[n] x = x) (apart : ∀ p, p.Prime → p ∣ n → f^[n / p] x ≠ x) :
    Function.minimalPeriod f x = n := by
  have divides : Function.minimalPeriod f x ∣ n := Function.IsPeriodicPt.minimalPeriod_dvd back
  obtain ⟨rest, whole⟩ := divides
  by_cases one : rest = 1
  · rw [whole, one, Nat.mul_one]
  · obtain ⟨p, prime, q, rfl⟩ := Nat.exists_prime_and_dvd one
    have quotient : n / p = Function.minimalPeriod f x * q := by
      rw [whole, Nat.mul_left_comm, Nat.mul_div_right _ prime.pos]
    have again : f^[n / p] x = x := by
      rw [quotient]
      exact (Function.isPeriodicPt_minimalPeriod f x).mul_const q
    exact absurd again (apart p prime ⟨_, by rw [whole, Nat.mul_left_comm]⟩)

theorem iterate_eq_iff_mod {α : Type*} {f : α → α} {x : α} {n : Nat} (positive : 0 < n)
    (full : Function.minimalPeriod f x = n) (i j : Nat) :
    f^[i] x = f^[j] x ↔ i % n = j % n := by
  subst full
  have reduced (k : Nat) : f^[k] x = f^[k % Function.minimalPeriod f x] x :=
    Function.iterate_mod_minimalPeriod_eq.symm
  rw [reduced i, reduced j]
  exact Function.iterate_eq_iterate_iff_of_lt_minimalPeriod (Nat.mod_lt i positive)
    (Nat.mod_lt j positive)

variable {r}

theorem PeriodCheck.minimalPeriod {n taps k period : Nat} {primes : List Nat} {x : BitVec w}
    (check : PeriodCheck r n taps k period primes x) :
    Function.minimalPeriod r.step x = period := by
  apply minimalPeriod_eq_of_primes
  · rw [← (stepsMask_stands check.recurrence check.wide check.few).combined, check.back]
  · intro p prime divides
    have member : p ∈ primes := by
      apply mem_list_primes_of_dvd_prod prime.prime
      · exact fun q member => (check.primes_prime q member).prime
      · rw [check.primes_prod]
        exact divides
    have fewer : period / p < 2 ^ k := Nat.lt_of_le_of_lt (Nat.div_le_self _ _) check.few
    rw [← (stepsMask_stands check.recurrence check.wide fewer).combined]
    exact check.apart p member

/-- An orbit that comes back to a value that is not zero does not meet zero. -/
theorem iterate_ne_zero {x : BitVec w} (nonzero : x ≠ 0#w)
    (periodic : 0 < Function.minimalPeriod r.step x) (k : Nat) : r.step^[k] x ≠ 0#w := by
  intro zero
  have later : k ≤ Function.minimalPeriod r.step x * k := Nat.le_mul_of_pos_left k periodic
  have back : r.step^[Function.minimalPeriod r.step x * k] x = x :=
    (Function.isPeriodicPt_minimalPeriod r.step x).mul_const k
  apply nonzero
  rw [← back, ← Nat.sub_add_cancel later, Function.iterate_add_apply, zero, iterate_zero]

/-- An orbit as long as there are values that are not zero meets them all. -/
theorem reaches_every {x : BitVec w} (nonzero : x ≠ 0#w)
    (full : Function.minimalPeriod r.step x = 2 ^ w - 1) (wide : 0 < 2 ^ w - 1) {y : BitVec w}
    (other : y ≠ 0#w) : ∃ k < 2 ^ w - 1, r.step^[k] x = y := by
  let orbit := (Finset.range (2 ^ w - 1)).image fun k => r.step^[k] x
  have inside : orbit ⊆ Finset.univ.erase 0#w := by
    intro z member
    obtain ⟨k, -, rfl⟩ := Finset.mem_image.mp member
    exact Finset.mem_erase.mpr
      ⟨iterate_ne_zero nonzero (full.symm ▸ wide) k, Finset.mem_univ _⟩
  have count : orbit.card = 2 ^ w - 1 := by
    have distinct : Set.InjOn (fun k => r.step^[k] x) (Finset.range (2 ^ w - 1)) := by
      intro i low j high same
      apply Function.iterate_injOn_Iio_minimalPeriod _ _ same
      · simpa [full] using low
      · simpa [full] using high
    rw [Finset.card_image_of_injOn distinct, Finset.card_range]
  have whole : orbit = Finset.univ.erase 0#w := by
    apply Finset.eq_of_subset_of_card_le inside
    rw [Finset.card_erase_of_mem (Finset.mem_univ _), count, Finset.card_univ]
    exact Nat.le_of_eq (by rw [← FinEnum.card_eq_fintypeCard, FinEnum.card_bitVec])
  have member : y ∈ orbit := by
    rw [whole]
    exact Finset.mem_erase.mpr ⟨other, Finset.mem_univ _⟩
  obtain ⟨k, low, reached⟩ := Finset.mem_image.mp member
  exact ⟨k, Finset.mem_range.mp low, reached⟩

/-- One full orbit gives every value that is not zero the same period. -/
theorem minimalPeriod_of_full {x : BitVec w} (nonzero : x ≠ 0#w)
    (full : Function.minimalPeriod r.step x = 2 ^ w - 1) (wide : 0 < 2 ^ w - 1) {y : BitVec w}
    (other : y ≠ 0#w) : Function.minimalPeriod r.step y = 2 ^ w - 1 := by
  obtain ⟨k, -, rfl⟩ := reaches_every nonzero full wide other
  have periodic : x ∈ Function.periodicPts r.step := by
    rw [← Function.minimalPeriod_pos_iff_mem_periodicPts, full]
    exact wide
  rw [Function.minimalPeriod_apply_iterate periodic, full]

/-- A register with a full orbit loses nothing. -/
theorem iterate_injective {x : BitVec w} (nonzero : x ≠ 0#w)
    (full : Function.minimalPeriod r.step x = 2 ^ w - 1) (wide : 0 < 2 ^ w - 1) (k : Nat) :
    Function.Injective r.step^[k] := by
  intro a b same
  by_contra different
  have apart : a ^^^ b ≠ 0#w := fun zero => different (BitVec.xor_eq_zero_iff.mp zero)
  have periodic : 0 < Function.minimalPeriod r.step (a ^^^ b) := by
    rw [minimalPeriod_of_full nonzero full wide apart]
    exact wide
  apply iterate_ne_zero apart periodic k
  rw [iterate_xor, same, BitVec.xor_self]

end Feedback

end Cs140e.Library
