import Mathlib.Data.Nat.Prime.Basic
import Mathlib.Order.Bounds.Basic
import Cs140e.Libpi.Circular

/-!
# The circular queue of any size

The client may define `CQ_N`.  The tests for an empty and a full queue work for
every size.  `cq_nelem` reduces a difference modulo `2 ^ 32` and then modulo
`CQ_N`: once the head has gone around and is below the tail, it counts the bytes
if and only if `CQ_N` divides `2 ^ 32`.
-/

namespace Cs140e.Libpi.Circular

open Cs140e.Library

/-! ## Going around the ring -/

/-- The steps forward from one slot to another. -/
def stepsForward (N tail head : Nat) : Nat := if tail ≤ head then head - tail else N - tail + head

/-- No fewer steps lead there. -/
theorem stepsForward_isLeast {N tail head : Nat} (tailIn : tail < N) (headIn : head < N) :
    IsLeast {k | (tail + k) % N = head} (stepsForward N tail head) := by
  unfold stepsForward
  constructor
  · rw [Set.mem_ofPred_eq]
    split
    · rw [Nat.add_sub_of_le (by assumption), Nat.mod_eq_of_lt headIn]
    · rw [show tail + (N - tail + head) = head + N by omega, Nat.add_mod_right,
        Nat.mod_eq_of_lt headIn]
  · intro k arrives
    rw [Set.mem_ofPred_eq] at arrives
    rcases Nat.lt_or_ge (tail + k) N with inside | around
    · rw [Nat.mod_eq_of_lt inside] at arrives
      split <;> omega
    · have turned := Nat.mod_le (tail + k - N) N
      rw [← Nat.mod_eq_sub_mod around, arrives] at turned
      split <;> omega

/-- One step further. -/
def step (N index : Nat) : Nat := if index + 1 = N then 0 else index + 1

theorem next_eq_step {N index : Nat} (inside : index < N) (large : N ≤ 2 ^ 31) :
    Cq.next N index = step N index := by
  have small : index + 1 < 2 ^ 32 := by omega
  unfold Cq.next unsigned step
  rw [Nat.mod_eq_of_lt small]
  split
  · rename_i last
    rw [last, Nat.mod_self]
  · rw [Nat.mod_eq_of_lt (by omega)]

/-! ## The count -/

/-- The remainder of a difference that has gone around. -/
theorem wrapped_mod_eq_iff {N tail head : Nat} (le : N ≤ 2 ^ 31) (tailIn : tail < N)
    (below : head < tail) : (head + 2 ^ 32 - tail) % N = N - tail + head ↔ N ∣ 2 ^ 32 := by
  have small : N - tail + head < N := by omega
  have split : head + 2 ^ 32 - tail = N - tail + head + (2 ^ 32 - N) := by omega
  have whole : N ∣ 2 ^ 32 ↔ N ∣ 2 ^ 32 - N := by
    rw [Nat.dvd_sub_iff_left (by omega) (Nat.dvd_refl N)]
  constructor
  · intro same
    have congruent : (N - tail + head + (2 ^ 32 - N)) % N = (N - tail + head) % N := by
      rw [← split, same, Nat.mod_eq_of_lt small]
    have rest := Nat.sub_mod_eq_zero_of_mod_eq congruent
    rw [Nat.add_sub_cancel_left] at rest
    exact whole.mpr (Nat.dvd_of_mod_eq_zero rest)
  · intro divides
    obtain ⟨turns, turnsEq⟩ := whole.mp divides
    rw [split, turnsEq, Nat.add_mul_mod_self_left, Nat.mod_eq_of_lt small]

variable {N : Nat} {c : Cq N}

/-- The count is right if and only if the head is not below the tail or `N`
divides `2 ^ 32`. -/
theorem nelem_eq_iff (large : N ≤ 2 ^ 31) :
    cqNelem c = stepsForward N c.tail c.head ↔ N ∣ 2 ^ 32 ∨ c.tail ≤ c.head := by
  have headIn := c.head_lt
  have tailIn := c.tail_lt
  unfold cqNelem unsignedSub unsigned stepsForward
  rcases Nat.lt_or_ge c.head c.tail with below | above
  · have small : c.head + 2 ^ 32 - c.tail < 2 ^ 32 := by omega
    rw [if_neg (by omega), Nat.mod_eq_of_lt small, wrapped_mod_eq_iff large tailIn below]
    exact ⟨.inl, fun either => either.resolve_right (by omega)⟩
  · rw [if_pos above, show c.head + 2 ^ 32 - c.tail = c.head - c.tail + 2 ^ 32 by omega,
      Nat.add_mod_right, Nat.mod_eq_of_lt (by omega), Nat.mod_eq_of_lt (by omega)]
    exact ⟨fun _ => .inr above, fun _ => rfl⟩

theorem nelem_isLeast_iff (large : N ≤ 2 ^ 31) :
    IsLeast {k | (c.tail + k) % N = c.head} (cqNelem c) ↔ N ∣ 2 ^ 32 ∨ c.tail ≤ c.head := by
  have least := stepsForward_isLeast c.tail_lt c.head_lt
  rw [← nelem_eq_iff large]
  constructor
  · exact fun count => count.unique least
  · exact fun same => same ▸ least

/-! ## The tests and one operation -/

theorem empty_iff_stepsForward :
    stepsForward N c.tail c.head = 0 ↔ cqEmpty c = true := by
  have tailIn := c.tail_lt
  rw [cqEmpty, beq_iff_eq, stepsForward]
  split <;> omega

theorem full_iff_stepsForward (two : 2 ≤ N) (large : N ≤ 2 ^ 31) :
    stepsForward N c.tail c.head = N - 1 ↔ cqFull c = true := by
  have headIn := c.head_lt
  have tailIn := c.tail_lt
  rw [cqFull, beq_iff_eq, next_eq_step headIn large, stepsForward, step]
  split <;> split <;> omega

/-- A push that succeeds, whatever it stores. -/
theorem cqPush_moves {x : Cqe} {after : Cq N} (pushed : cqPush x c = .ok true after) :
    cqFull c = false ∧ after.head = Cq.next N c.head ∧ after.tail = c.tail := by
  unfold cqPush at pushed
  split at pushed
  · cases pushed
  · rename_i room
    cases pushed
    exact ⟨Bool.eq_false_iff.mpr room, rfl, rfl⟩

theorem cqPopNonblock_moves {e : Cqe} {after : Cq N}
    (popped : cqPopNonblock c = .ok (some e) after) :
    cqEmpty c = false ∧ after.head = c.head ∧ after.tail = Cq.next N c.tail := by
  unfold cqPopNonblock at popped
  split at popped
  · cases popped
  · rename_i some
    cases popped
    exact ⟨Bool.eq_false_iff.mpr some, rfl, rfl⟩

/-- Where the head may be for the next push to be counted. -/
def HeadAhead (c : Cq N) : Prop := c.tail ≤ c.head ∧ (c.head + 1 < N ∨ c.tail = 0)

/-- The count is the number of slots from the tail forward to the head, tells an
empty and a full queue, and follows the operations. -/
structure CountsSlots (c : Cq N) : Prop where
  nelem : IsLeast {k | (c.tail + k) % N = c.head} (cqNelem c)
  empty : cqNelem c = 0 ↔ cqEmpty c = true
  full : cqNelem c = N - 1 ↔ cqFull c = true
  push : ∀ x after, cqPush x c = .ok true after → cqNelem after = cqNelem c + 1
  pop : ∀ e after, cqPopNonblock c = .ok (some e) after → cqNelem after + 1 = cqNelem c

/-- After a push the count is still right. -/
theorem push_counted (two : 2 ≤ N) (large : N ≤ 2 ^ 31) (fits : N ∣ 2 ^ 32 ∨ HeadAhead c)
    {x : Cqe} {after : Cq N} (pushed : cqPush x c = .ok true after) :
    cqNelem after = stepsForward N c.tail c.head + 1 := by
  obtain ⟨room, head, tail⟩ := cqPush_moves pushed
  have headIn := c.head_lt
  have tailIn := c.tail_lt
  have notFull := mt (full_iff_stepsForward two large).mp (Bool.eq_false_iff.mp room)
  rw [next_eq_step headIn large] at head
  have counted : cqNelem after = stepsForward N after.tail after.head := by
    rw [nelem_eq_iff large, head, tail]
    refine fits.imp_right ?_
    rintro ⟨ahead, inside⟩
    unfold stepsForward at notFull
    unfold step
    rw [if_pos ahead] at notFull
    split <;> omega
  rw [counted, head, tail]
  unfold stepsForward step at *
  split_ifs at * <;> omega

theorem pop_counted (large : N ≤ 2 ^ 31) (fits : N ∣ 2 ^ 32 ∨ c.tail ≤ c.head)
    {e : Cqe} {after : Cq N} (popped : cqPopNonblock c = .ok (some e) after) :
    cqNelem after + 1 = stepsForward N c.tail c.head := by
  obtain ⟨some, head, tail⟩ := cqPopNonblock_moves popped
  have headIn := c.head_lt
  have tailIn := c.tail_lt
  have notEmpty := mt empty_iff_stepsForward.mp (Bool.eq_false_iff.mp some)
  rw [next_eq_step tailIn large] at tail
  have counted : cqNelem after = stepsForward N after.tail after.head := by
    rw [nelem_eq_iff large, head, tail]
    refine fits.imp_right fun ahead => ?_
    unfold stepsForward at notEmpty
    unfold step
    rw [if_pos ahead] at notEmpty
    split <;> omega
  rw [counted, head, tail]
  unfold stepsForward step at *
  split_ifs at * <;> omega

/-- A byte can be pushed into the last slot when the first one is free, and the
head is then below the tail. -/
theorem cqPush_around (large : N ≤ 2 ^ 31) (last : c.head + 1 = N) (behind : c.tail ≠ 0) :
    ∃ after, cqPush 0 c = .ok true after ∧ after.head = 0 ∧ after.tail = c.tail := by
  have around : Cq.next N c.head = 0 := by
    rw [next_eq_step c.head_lt large, step, if_pos last]
  have room : ¬ cqFull c = true := by
    rw [cqFull, beq_iff_eq, around]
    exact Ne.symm behind
  exact ⟨_, if_neg room, around, rfl⟩

theorem countsSlots_iff (two : 2 ≤ N) (large : N ≤ 2 ^ 31) :
    CountsSlots c ↔ N ∣ 2 ^ 32 ∨ HeadAhead c := by
  constructor
  · intro counts
    by_contra neither
    obtain ⟨odd, notAhead⟩ := not_or.mp neither
    have ahead := ((nelem_isLeast_iff large).mp counts.nelem).resolve_left odd
    have last : c.head + 1 = N := by
      have headIn := c.head_lt
      by_contra inside
      exact notAhead ⟨ahead, .inl (by omega)⟩
    have behind : c.tail ≠ 0 := fun first => notAhead ⟨ahead, .inr first⟩
    obtain ⟨after, pushed, head, tail⟩ := cqPush_around large last behind
    have counted := counts.push 0 after pushed
    rw [(nelem_eq_iff large).mpr (.inr ahead)] at counted
    have right : cqNelem after = stepsForward N after.tail after.head := by
      rw [counted, head, tail]
      unfold stepsForward
      split_ifs <;> omega
    rcases (nelem_eq_iff large).mp right with divides | below
    · exact odd divides
    · omega
  · intro fits
    have forward : N ∣ 2 ^ 32 ∨ c.tail ≤ c.head := fits.imp_right And.left
    have counted := (nelem_eq_iff large).mpr forward
    refine ⟨(nelem_isLeast_iff large).mpr forward, ?_, ?_, ?_, ?_⟩
    · rw [counted]
      exact empty_iff_stepsForward
    · rw [counted]
      exact full_iff_stepsForward two large
    · intro x after pushed
      rw [counted, push_counted two large fits pushed]
    · intro e after popped
      rw [counted, pop_counted large forward popped]

/-- The count is right in a state if and only if the size divides `2 ^ 32` or
neither the head nor a push is around the end.  It is right in every state if and
only if the size is a power of two. -/
theorem cq_counts_slots_iff (two : 2 ≤ N) (large : N ≤ 2 ^ 31) :
    (∀ c : Cq N, CountsSlots c ↔ N ∣ 2 ^ 32 ∨ HeadAhead c) ∧
      ((∀ c : Cq N, CountsSlots c) ↔ ∃ k, N = 2 ^ k) := by
  refine ⟨fun c => countsSlots_iff two large, ?_, ?_⟩
  · intro all
    have positive : 0 < N := by omega
    have around := (countsSlots_iff two large).mp
      (all ((Cq.zeroed positive false).setTail 1 (by omega)))
    rcases around with divides | ⟨ahead, -⟩
    · obtain ⟨k, -, power⟩ := (Nat.dvd_prime_pow Nat.prime_two).mp divides
      exact ⟨k, power⟩
    · exact absurd ahead (Nat.not_succ_le_zero 0)
  · rintro ⟨k, rfl⟩ c
    have le : k ≤ 31 := (Nat.pow_le_pow_iff_right (by decide)).mp large
    exact (countsSlots_iff two large).mpr (.inl (Nat.pow_dvd_pow 2 (by omega)))

/-- A ring of three slots counts right while it is fresh. -/
theorem cq_counts_slots_iff_of_three : CountsSlots (Cq.zeroed (by decide : 0 < 3) false) :=
  ((cq_counts_slots_iff (by decide) (by decide)).1 _).mpr (.inr ⟨by decide, .inl (by decide)⟩)

/-- With the head around the end it counts no byte where there are two. -/
theorem cq_miscounts_three :
    ¬ ∀ N, 2 ≤ N → N ≤ 2 ^ 31 → ∀ c : Cq N, CountsSlots c := by
  intro all
  have counts := all 3 (by decide) (by decide)
    ((Cq.zeroed (by decide) false).setTail 1 (by decide))
  exact absurd (counts.empty.mp (by decide)) (by decide)

end Cs140e.Libpi.Circular
