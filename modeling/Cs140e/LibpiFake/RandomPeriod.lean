import Cs140e.LibpiFake.RandomDraws
import Mathlib.Data.Nat.ModEq
import Mathlib.NumberTheory.LucasLehmer
import Mathlib.Tactic.NormNum.Prime

/-!
# The least significant bits

The lowest bits of the words that `pi_random_r` adds up are those of a linear
feedback register with the trinomial of the generator.  All four trinomials are
primitive.
-/

namespace Cs140e.LibpiFake.Random

open Library

theorem check7 :
    Feedback.PeriodCheck (Lagged.bitRegister 7 3) 7 0x11 7 (2 ^ 7 - 1) [127] 1#7 where
  wide := by decide
  recurrence := ⟨by decide, by decide +kernel⟩
  few := by decide
  primes_prime := by simp only [List.mem_singleton, forall_eq]; norm_num
  primes_prod := by decide
  back := by decide +kernel
  apart := by decide +kernel

theorem check15 :
    Feedback.PeriodCheck (Lagged.bitRegister 15 1) 15 0x4001 15 (2 ^ 15 - 1) [7, 31, 151] 1#15 where
  wide := by decide
  recurrence := ⟨by decide, by decide +kernel⟩
  few := by decide
  primes_prime := by
    intro p member
    simp only [List.mem_cons, List.not_mem_nil, or_false] at member
    rcases member with rfl | rfl | rfl <;> norm_num
  primes_prod := by decide
  back := by decide +kernel
  apart := by decide +kernel

theorem check31 :
    Feedback.PeriodCheck (Lagged.bitRegister 31 3) 31 0x10000001 31 (2 ^ 31 - 1) [2 ^ 31 - 1]
      1#31 where
  wide := by decide
  recurrence := ⟨by decide, by decide +kernel⟩
  few := by decide
  primes_prime := by
    simp only [List.mem_singleton, forall_eq]
    exact lucas_lehmer_sufficiency 31 (by norm_num) (by norm_num)
  primes_prod := by decide
  back := by decide +kernel
  apart := by decide +kernel

theorem check63 :
    Feedback.PeriodCheck (Lagged.bitRegister 63 1) 63 0x4000000000000001 63 (2 ^ 63 - 1)
      [7, 7, 73, 127, 337, 92737, 649657] 1#63 where
  wide := by decide
  recurrence := ⟨by decide, by decide +kernel⟩
  few := by decide
  primes_prime := by
    intro p member
    simp only [List.mem_cons, List.not_mem_nil, or_false] at member
    rcases member with rfl | rfl | rfl | rfl | rfl | rfl | rfl <;> norm_num
  primes_prod := by decide
  back := by decide +kernel
  apart := by decide +kernel

/-- Every trinomial of the code gives a full orbit. -/
theorem Tabled.full {type : Nat} (tabled : Tabled type) :
    Function.minimalPeriod (Lagged.bitRegister (degree type) (separation type)).step
      (BitVec.ofNat (degree type) 1) = 2 ^ degree type - 1 := by
  rcases tabled.cases with rfl | rfl | rfl | rfl
  · exact check7.minimalPeriod
  · exact check15.minimalPeriod
  · exact check31.minimalPeriod
  · exact check63.minimalPeriod

/-- The lowest bit of the word that the call number `k` stores, which is not in its result. -/
def chuckedBit (s : World) (k : Nat) : Bool :=
  ((afterDraws s (k + 1)).words (afterDraws s k).data.fptr).getLsbD 0

theorem Running.chucked_bit {s : World} {state type rear : Nat} {items : Nat → BitVec 32}
    (running : Running s state type rear items) (k : Nat) :
    chuckedBit s k =
      (Lagged.stream (degree type) (separation type) items (degree type + k)).getLsbD 0 := by
  obtain ⟨before, -⟩ := running.run k
  have tabled : (afterDraws s k).data.randType ≠ 0#32 :=
    before.ready.type_eq ▸ before.ready.tabled.type_ne
  have stored : (afterDraws s (k + 1)).words (afterDraws s k).data.fptr =
      (afterDraws s k).words (afterDraws s k).data.fptr +
        (afterDraws s k).words (afterDraws s k).data.rptr := by
    have last : afterDraws s (k + 1) = (draw (afterDraws s k)).2 :=
      Function.iterate_succ_apply' _ k s
    rw [last, draw, if_neg tabled]
    exact Function.update_self _ _ _
  rw [chuckedBit, stored, before.sum, Lagged.stream_advance, Nat.add_comm k]

theorem afterDraws_add (s : World) (n k : Nat) :
    afterDraws s (n + k) = afterDraws (afterDraws s n) k := by
  rw [Nat.add_comm]
  exact Function.iterate_add_apply _ k n s

theorem chuckedBit_add (s : World) (n k : Nat) :
    chuckedBit s (n + k) = chuckedBit (afterDraws s n) k := by
  rw [chuckedBit, chuckedBit, Nat.add_assoc, afterDraws_add s n, afterDraws_add s n]

/-- A word of the table is an item of the window. -/
theorem Ready.exists_item {s : World} {type rear p : Nat} (ready : Ready s.data type rear)
    (inside : InTable s.data.state type p) :
    ∃ i < degree type, window s.words s.data.state type rear i = s.words p := by
  obtain ⟨low, high⟩ := inside
  have front := frontOf_lt ready.tabled rear
  let place := p - s.data.state + degree type - frontOf type rear
  have back : (frontOf type rear + place % degree type) % degree type = p - s.data.state := by
    rw [Nat.add_mod_mod, show frontOf type rear + place = p - s.data.state + degree type by omega,
      Nat.add_mod_right, Nat.mod_eq_of_lt (by omega)]
  refine ⟨place % degree type, Nat.mod_lt _ (by omega), ?_⟩
  rw [window, back, slots, show s.data.state + (p - s.data.state) = p by omega]

/-- The chucked bits repeat after `2 ^ deg - 1` calls and not before, unless the table holds
even words only, and no state of the generator comes back earlier. -/
theorem chucked_bits_have_full_period (s : World) (type rear p : Nat)
    (ready : Ready s.data type rear) (inside : InTable s.data.state type p)
    (odd : (s.words p).getLsbD 0 = true) (i j : Nat) :
    ((∀ k, chuckedBit s (i + k) = chuckedBit s (j + k)) ↔
        i % (2 ^ degree type - 1) = j % (2 ^ degree type - 1)) ∧
      (afterDraws s i = afterDraws s j →
        i % (2 ^ degree type - 1) = j % (2 ^ degree type - 1)) := by
  have tabled := ready.tabled
  obtain ⟨place, low, item⟩ := ready.exists_item inside
  have repeats := Lagged.lowBits_repeat (by decide : 0 < 32) tabled.separation_pos
    tabled.separation_lt tabled.full ⟨place, low, item ▸ odd⟩ (degree type + i) (degree type + j)
  have bits : (∀ k, chuckedBit s (i + k) = chuckedBit s (j + k)) ↔
      i % (2 ^ degree type - 1) = j % (2 ^ degree type - 1) := by
    simp only [ready.running.chucked_bit, ← Nat.add_assoc]
    rw [repeats]
    exact ⟨Nat.ModEq.add_left_cancel' (degree type), Nat.ModEq.add_left (degree type)⟩
  refine ⟨bits, fun same => bits.mp fun k => ?_⟩
  rw [chuckedBit_add, chuckedBit_add, same]

theorem chucked_bits_have_full_period_small :
    afterDraws smallWorld 126 ≠ afterDraws smallWorld 0 := by
  intro same
  have turn := (chucked_bits_have_full_period smallWorld 1 0 1 smallWorld_ready
    (by simp [InTable, smallWorld, degree, degrees]) (by decide) 126 0).2 same
  exact absurd turn (by decide)

end Cs140e.LibpiFake.Random
