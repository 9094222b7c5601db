import Mathlib.Algebra.Group.Nat.Defs
import Mathlib.Order.Monotone.Basic
import Cs140e.Library.Prog

/-!
# Waiting for the timer

A translation of the delays in `timer.c`.  The timer counts microseconds in 32
bits.  A delay compares the difference of two reads, which is never more than
the time between them; the conversion to microseconds is a 32-bit product,
which may be less than the time that was asked for.
-/

namespace Cs140e.Libpi.Timer

open Cs140e.Library

/-- The time in microseconds at each read of the timer. -/
structure Clock where
  time : Nat → Nat
  monotone : Monotone time

section

variable (clock : Clock)

/-- `timer_get_usec_raw`; the state is the number of reads so far. -/
def timerGetUsecRaw : Prog Nat UInt32 := fun reads =>
  .ok (UInt32.ofNat (clock.time reads)) (reads + 1)

def timerGetUsec : Prog Nat UInt32 := do
  let u ← timerGetUsecRaw clock
  pure u

/-- A round of the loop of `delay_us`. -/
def delayRound (rb us : UInt32) : Prog Nat (Option Unit) := do
  let ra ← timerGetUsec clock
  if ra - rb ≥ us then pure (some ())
  else pure none

def delayUs (fuel : Nat) (us : UInt32) : Prog Nat Unit := do
  let rb ← timerGetUsec clock
  Prog.repeatUntil (delayRound clock rb us) fuel

def delayMs (fuel : Nat) (ms : UInt32) : Prog Nat Unit := delayUs clock fuel (ms * 1000)

def delaySec (fuel : Nat) (sec : UInt32) : Prog Nat Unit := delayMs clock fuel (sec * 1000)

end

/-! ## When a delay returns -/

namespace Clock

variable {clock : Clock}

/-- The difference of two reads is the time between them up to a multiple of `2 ^ 32`. -/
theorem toNat_sub {first last : Nat} (order : first ≤ last) :
    (UInt32.ofNat (clock.time last) - UInt32.ofNat (clock.time first)).toNat =
      (clock.time last - clock.time first) % 2 ^ 32 := by
  have later := clock.monotone order
  rw [UInt32.toNat_sub, UInt32.toNat_ofNat', UInt32.toNat_ofNat']
  omega

/-- The test of `delay_us` on the reads `first` and `last`. -/
def Passed (clock : Clock) (us : UInt32) (first last : Nat) : Prop :=
  us.toNat ≤ (clock.time last - clock.time first) % 2 ^ 32

theorem timerGetUsec_apply (clock : Clock) (reads : Nat) :
    timerGetUsec clock reads = .ok (UInt32.ofNat (clock.time reads)) (reads + 1) := rfl

theorem delayRound_of_passed {us : UInt32} {first reads : Nat} (order : first ≤ reads)
    (passed : clock.Passed us first reads) :
    delayRound clock (UInt32.ofNat (clock.time first)) us reads = .ok (some ()) (reads + 1) := by
  have test : UInt32.ofNat (clock.time reads) - UInt32.ofNat (clock.time first) ≥ us := by
    rw [ge_iff_le, UInt32.le_iff_toNat_le, toNat_sub order]
    exact passed
  rw [delayRound, Prog.bind_of_ok (timerGetUsec_apply clock reads), if_pos test]
  rfl

theorem delayRound_of_not_passed {us : UInt32} {first reads : Nat} (order : first ≤ reads)
    (early : ¬ clock.Passed us first reads) :
    delayRound clock (UInt32.ofNat (clock.time first)) us reads = .ok none (reads + 1) := by
  have test : ¬ UInt32.ofNat (clock.time reads) - UInt32.ofNat (clock.time first) ≥ us := by
    rw [ge_iff_le, UInt32.le_iff_toNat_le, toNat_sub order]
    exact early
  rw [delayRound, Prog.bind_of_ok (timerGetUsec_apply clock reads), if_neg test]
  rfl

/-- The loop returns after the first read at which the test succeeds, when the
fuel reaches that far. -/
theorem delayLoop_returns_iff (clock : Clock) (us : UInt32) {first reads : Nat}
    (order : first ≤ reads) (fuel after : Nat) :
    Prog.repeatUntil (delayRound clock (UInt32.ofNat (clock.time first)) us) fuel reads =
        .ok () after ↔
      ∃ k < fuel, after = reads + k + 1 ∧ clock.Passed us first (reads + k) ∧
        ∀ j < k, ¬ clock.Passed us first (reads + j) := by
  induction fuel generalizing reads with
  | zero => simp
  | succ fuel ih =>
      by_cases passed : clock.Passed us first reads
      · rw [Prog.repeatUntil_of_some fuel (delayRound_of_passed order passed)]
        constructor
        · intro returned
          cases returned
          exact ⟨0, Nat.succ_pos fuel, rfl, passed, fun j less => absurd less (Nat.not_lt_zero j)⟩
        · rintro ⟨k, -, rfl, -, none⟩
          cases k with
          | zero => rfl
          | succ k => exact absurd passed (none 0 (Nat.succ_pos k))
      · rw [Prog.repeatUntil_of_none fuel (delayRound_of_not_passed order passed),
          ih (Nat.le_succ_of_le order)]
        constructor
        · rintro ⟨k, less, rfl, there, none⟩
          refine ⟨k + 1, Nat.succ_lt_succ less, by omega, ?_, ?_⟩
          · rwa [Nat.add_comm k, ← Nat.add_assoc]
          · intro j before
            cases j with
            | zero => exact passed
            | succ j =>
                rw [Nat.add_comm j, ← Nat.add_assoc]
                exact none j (Nat.lt_of_succ_lt_succ before)
        · rintro ⟨k, less, rfl, there, none⟩
          cases k with
          | zero => exact absurd there passed
          | succ k =>
              rw [Nat.add_comm k, ← Nat.add_assoc] at there
              refine ⟨k, Nat.lt_of_succ_lt_succ less, by omega, there, fun j before => ?_⟩
              have earlier := none (j + 1) (Nat.succ_lt_succ before)
              rwa [Nat.add_comm j, ← Nat.add_assoc] at earlier

theorem delayUs_returns_iff (clock : Clock) (us : UInt32) (fuel start after : Nat) :
    delayUs clock fuel us start = .ok () after ↔
      ∃ k < fuel, after = start + 1 + k + 1 ∧ clock.Passed us start (start + 1 + k) ∧
        ∀ j < k, ¬ clock.Passed us start (start + 1 + j) := by
  rw [delayUs, Prog.bind_of_ok (timerGetUsec_apply clock start)]
  exact delayLoop_returns_iff clock us (Nat.le_succ start) fuel after

/-- The time goes by at once between the first two reads. -/
def jump (us : Nat) : Clock where
  time reads := if reads = 0 then 0 else us
  monotone first last order := by
    dsimp only
    split
    · exact Nat.zero_le _
    · rw [if_neg (by omega)]

end Clock

/-! ## Early returns -/

/-- On every clock, whenever the delay returns, that many microseconds have
passed between its first and its last read. -/
def NeverEarly (delay : Clock → Nat → Prog Nat Unit) (us : Nat) : Prop :=
  ∀ clock fuel start after, delay clock fuel start = .ok () after →
    clock.time start + us ≤ clock.time (after - 1)

/-- `delay_us` waits for its argument and for no more. -/
theorem neverEarly_delayUs_iff (us : UInt32) (wanted : Nat) :
    NeverEarly (fun clock fuel => delayUs clock fuel us) wanted ↔ wanted ≤ us.toNat := by
  constructor
  · intro never
    have passed : (Clock.jump us.toNat).Passed us 0 (0 + 1 + 0) := by
      simp [Clock.Passed, Clock.jump, Nat.mod_eq_of_lt us.toNat_lt]
    have returned := (Clock.delayUs_returns_iff (Clock.jump us.toNat) us 1 0 2).mpr
      ⟨0, Nat.one_pos, rfl, passed, fun j less => absurd less (Nat.not_lt_zero j)⟩
    simpa [Clock.jump] using never _ 1 0 2 returned
  · intro le clock fuel start after returned
    obtain ⟨k, -, rfl, passed, -⟩ := (Clock.delayUs_returns_iff clock us fuel start after).mp returned
    have order := clock.monotone (Nat.le_add_right start (1 + k))
    have part := Nat.mod_le (clock.time (start + 1 + k) - clock.time start) (2 ^ 32)
    unfold Clock.Passed at passed
    rw [Nat.add_sub_cancel]
    rw [← Nat.add_assoc] at order
    omega

theorem toNat_mul_1000 (n : UInt32) : (n * 1000).toNat = n.toNat * 1000 % 2 ^ 32 :=
  UInt32.toNat_mul n 1000

theorem neverEarly_delayMs_iff (ms : UInt32) :
    NeverEarly (fun clock fuel => delayMs clock fuel ms) (ms.toNat * 1000) ↔
      ms.toNat * 1000 < 2 ^ 32 := by
  unfold delayMs
  rw [neverEarly_delayUs_iff, toNat_mul_1000]
  omega

theorem neverEarly_delaySec_iff (sec : UInt32) :
    NeverEarly (fun clock fuel => delaySec clock fuel sec) (sec.toNat * 1000000) ↔
      sec.toNat * 1000000 < 2 ^ 32 := by
  unfold delaySec delayMs
  rw [neverEarly_delayUs_iff, toNat_mul_1000, toNat_mul_1000]
  omega

/-- The delays never return early if and only if the conversions to microseconds
fit in 32 bits. -/
theorem delays_never_early_iff (us ms sec : UInt32) :
    (NeverEarly (fun clock fuel => delayUs clock fuel us) us.toNat ∧
        NeverEarly (fun clock fuel => delayMs clock fuel ms) (ms.toNat * 1000) ∧
        NeverEarly (fun clock fuel => delaySec clock fuel sec) (sec.toNat * 1000000)) ↔
      ms.toNat * 1000 < 2 ^ 32 ∧ sec.toNat * 1000000 < 2 ^ 32 := by
  rw [neverEarly_delayUs_iff, neverEarly_delayMs_iff, neverEarly_delaySec_iff]
  exact and_iff_right (Nat.le_refl _)

/-- `delay_ms(4294968)` returns when 704 microseconds have passed. -/
theorem delay_ms_returns_early :
    ¬ ∀ ms : UInt32, NeverEarly (fun clock fuel => delayMs clock fuel ms) (ms.toNat * 1000) := by
  intro never
  have returned : delayMs (Clock.jump 704) 1 4294968 0 = .ok () 2 := rfl
  exact absurd (never 4294968 _ 1 0 2 returned) (by decide)

end Cs140e.Libpi.Timer
