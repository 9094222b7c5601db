import Cs140e.LibpiFake.RandomDraws
import Mathlib.Algebra.Group.Nat.Defs

/-!
# Seeding

`pi_srandom_r` fills the table with powers of 16807 times the seed and then calls
the generator ten times for each slot.  `pi_initstate_r` chooses the generator
from the number of bytes before it does so.
-/

namespace Cs140e.LibpiFake.Random

open Library

/-- The word that seeds slot `i`: `16807 ^ i * seed`, reduced from the first product on. -/
def seedWord (seed i : Nat) : Nat :=
  if i = 0 then seed else 16807 ^ i * seed % 2147483647

theorem seedWord_lt {seed : Nat} (bounded : seed < 2 ^ 32) (i : Nat) : seedWord seed i < 2 ^ 32 := by
  unfold seedWord
  split
  · exact bounded
  · exact Nat.lt_trans (Nat.mod_lt _ (by decide)) (by decide)

/-- The detour over quotient and remainder of 127773 computes the product. -/
theorem nextSeed_eq {n : Nat} (bounded : n < 2 ^ 32) :
    nextSeed n = (16807 * n % 2147483647 : Nat) := by
  have hi : (n : Int).tdiv 127773 = (n / 127773 : Nat) := rfl
  have lo : (n : Int).tmod 127773 = (n % 127773 : Nat) := rfl
  have small : n / 127773 ≤ 33614 := by
    rw [show (2 : Nat) ^ 32 = 4294967296 by decide] at bounded
    omega
  unfold nextSeed
  simp only [hi, lo]
  split
  · omega
  · omega

theorem nextSeed_seedWord {seed : Nat} (bounded : seed < 2 ^ 32) (i : Nat) :
    nextSeed (seedWord seed i) = seedWord seed (i + 1) := by
  rw [nextSeed_eq (seedWord_lt bounded i)]
  cases i with
  | zero => simp [seedWord]
  | succ i =>
      simp only [seedWord, Nat.succ_ne_zero, if_false]
      rw [Nat.mul_mod_mod, ← Nat.mul_assoc, ← Nat.pow_succ']

theorem fill_apply {seed : Nat} (bounded : seed < 2 ^ 32) (words : Words) (dst i n p : Nat) :
    fill words dst (seedWord seed i) n p =
      if dst < p ∧ p ≤ dst + n then BitVec.ofNat 32 (seedWord seed (i + (p - dst))) else words p := by
  induction n generalizing words dst i with
  | zero =>
      rw [if_neg (by omega)]
      rfl
  | succ n ih =>
      rw [fill, nextSeed_seedWord bounded, ih]
      by_cases first : p = dst + 1
      · subst first
        rw [if_neg (by omega), if_pos (by omega), Function.update_self, Nat.add_sub_cancel_left,
          BitVec.ofInt_natCast]
      · by_cases inside : dst < p ∧ p ≤ dst + (n + 1)
        · rw [if_pos (by omega), if_pos inside,
            show i + 1 + (p - (dst + 1)) = i + (p - dst) by omega]
        · rw [if_neg (by omega), if_neg inside, Function.update_of_ne first]

theorem discard_eq (s : World) (n : Nat) : discard s n = afterDraws s n := by
  induction n generalizing s with
  | zero => rfl
  | succ n ih => exact ih _

/-- `if(seed == 0) seed = 1;` -/
def usedSeed (seed : BitVec 32) : BitVec 32 := if seed = 0#32 then 1#32 else seed

/-- The window of a table that was just filled. -/
def seedItems (type : Nat) (seed : BitVec 32) : Nat → BitVec 32 := fun i =>
  BitVec.ofNat 32 (seedWord (usedSeed seed).toNat ((separation type + i) % degree type))

/-- The fields that `pi_initstate_r` sets for a generator. -/
structure Formed (data : PiRandomData) (type : Nat) : Prop where
  small : type < maxTypes
  type_eq : data.randType = BitVec.ofNat 32 type
  deg_eq : data.randDeg = degree type
  sep_eq : data.randSep = separation type
  end_eq : data.endPtr = data.state + degree type

theorem Ready.formed {data : PiRandomData} {type rear : Nat} (ready : Ready data type rear) :
    Formed data type :=
  ⟨ready.tabled.2, ready.type_eq, ready.deg_eq, ready.sep_eq, ready.end_eq⟩

theorem Formed.type_lt {data : PiRandomData} {type : Nat} (formed : Formed data type) :
    ¬maxTypes ≤ data.randType.toNat := by
  have small := formed.small
  rw [formed.type_eq, BitVec.toNat_ofNat, Nat.mod_eq_of_lt (Nat.lt_trans small (by decide))]
  exact Nat.not_le_of_lt small

/-- Seeding starts the same stream whatever the table and the pointers were. -/
theorem Formed.srandom {s : World} {type : Nat} (formed : Formed s.data type)
    (tabled : Tabled type) (seed : BitVec 32) :
    (piSrandomR seed false s).1 = 0 ∧
      Running (piSrandomR seed false s).2 s.data.state type 0
        ((Lagged.advance (degree type) (separation type))^[degree type * 10]
          (seedItems type seed)) ∧
      ∀ p, ¬InTable s.data.state type p → (piSrandomR seed false s).2.words p = s.words p := by
  have positive := tabled.separation_pos
  have less := tabled.separation_lt
  have notZero : s.data.randType ≠ 0#32 := formed.type_eq ▸ tabled.type_ne
  let start : World :=
    { words := fill (Function.update s.words s.data.state (usedSeed seed)) s.data.state
        (usedSeed seed).toNat (s.data.randDeg - 1),
      data := { s.data with fptr := s.data.state + s.data.randSep, rptr := s.data.state } }
  have code : piSrandomR seed false s = (0, afterDraws start (s.data.randDeg * 10)) := by
    rw [← discard_eq]
    simp only [piSrandomR, Bool.false_eq_true, if_false, formed.type_lt, notZero, World.store]
    rfl
  have deg := formed.deg_eq
  have word (p : Nat) : start.words p =
      if InTable s.data.state type p then
        BitVec.ofNat 32 (seedWord (usedSeed seed).toNat (p - s.data.state))
      else s.words p := by
    have filled := fill_apply (usedSeed seed).isLt
      (Function.update s.words s.data.state (usedSeed seed)) s.data.state 0 (s.data.randDeg - 1) p
    rw [show seedWord (usedSeed seed).toNat 0 = (usedSeed seed).toNat from rfl] at filled
    refine filled.trans ?_
    by_cases first : p = s.data.state
    · subst first
      have inside : InTable s.data.state type s.data.state := ⟨Nat.le_refl _, by omega⟩
      rw [if_neg (by omega), if_pos inside, Nat.sub_self, seedWord, if_pos rfl,
        Function.update_self, BitVec.ofNat_toNat, BitVec.setWidth_eq]
    · rw [Nat.zero_add, Function.update_of_ne first]
      refine if_congr ?_ rfl rfl
      unfold InTable
      omega
  have running : Running start s.data.state type 0 (seedItems type seed) := by
    refine ⟨⟨tabled, formed.type_eq, formed.deg_eq, formed.sep_eq, formed.end_eq, by omega, rfl,
      ?_⟩, rfl, ?_⟩
    · rw [frontOf, Nat.zero_add, Nat.mod_eq_of_lt less, ← formed.sep_eq]
    · intro i inside
      have low : (frontOf type 0 + i) % degree type < degree type := Nat.mod_lt _ (by omega)
      have inTable : InTable s.data.state type (s.data.state + (frontOf type 0 + i) % degree type) :=
        ⟨Nat.le_add_right _ _, Nat.add_lt_add_left low _⟩
      rw [slots, word, if_pos inTable,
        Nat.add_sub_cancel_left, seedItems, frontOf, Nat.zero_add, Nat.mod_eq_of_lt less]
  obtain ⟨ran, kept⟩ := running.run (degree type * 10)
  rw [Nat.zero_add, Nat.mul_mod_right] at ran
  rw [code, deg]
  refine ⟨rfl, ran, fun p outside => (kept p outside).trans ?_⟩
  rw [word, if_neg outside]

/-! ## `pi_initstate_r` -/

theorem typeFor_eq_none {n : Nat} : typeFor n = none ↔ n < break0 := by
  have order : break0 < break1 ∧ break1 < break3 := by decide
  unfold typeFor
  by_cases large : break3 ≤ n
  · rw [if_pos large]
    split <;> simp <;> omega
  · rw [if_neg large]
    by_cases low : n < break1
    · rw [if_pos low]
      simp
    · rw [if_neg low]
      split <;> simp <;> omega

/-- A chosen generator fits into the bytes, behind one word for the header. -/
theorem typeFor_room {n type : Nat} (chosen : typeFor n = some type) :
    type < maxTypes ∧ 4 * (1 + max 1 (degree type)) ≤ n := by
  unfold typeFor at chosen
  by_cases large : break3 ≤ n
  · rw [if_pos large] at chosen
    by_cases low : n < break4
    · rw [if_pos low] at chosen
      cases chosen
      exact ⟨by decide, large⟩
    · rw [if_neg low] at chosen
      cases chosen
      exact ⟨by decide, Nat.le_of_not_lt low⟩
  · rw [if_neg large] at chosen
    by_cases low : n < break1
    · rw [if_pos low] at chosen
      by_cases lowest : n < break0
      · rw [if_pos lowest] at chosen
        cases chosen
      · rw [if_neg lowest] at chosen
        cases chosen
        exact ⟨by decide, Nat.le_of_not_lt lowest⟩
    · rw [if_neg low] at chosen
      by_cases next : n < break2
      · rw [if_pos next] at chosen
        cases chosen
        exact ⟨by decide, Nat.le_of_not_lt low⟩
      · rw [if_neg next] at chosen
        cases chosen
        exact ⟨by decide, Nat.le_of_not_lt next⟩

/-- No generator with a greater table fits. -/
theorem typeFor_greatest {n type other : Nat} (chosen : typeFor n = some type)
    (small : other < maxTypes) (fits : 4 * (1 + max 1 (degree other)) ≤ n) : other ≤ type := by
  have bound : other ≤ 0 ∨ 32 ≤ n ∧ other ≤ 1 ∨ 64 ≤ n ∧ other ≤ 2 ∨ 128 ≤ n ∧ other ≤ 3 ∨
      256 ≤ n ∧ other ≤ 4 := by
    rcases other with _ | _ | _ | _ | _ | other
    · exact .inl (Nat.le_refl _)
    · exact .inr (.inl ⟨fits, Nat.le_refl _⟩)
    · exact .inr (.inr (.inl ⟨fits, Nat.le_refl _⟩))
    · exact .inr (.inr (.inr (.inl ⟨fits, Nat.le_refl _⟩)))
    · exact .inr (.inr (.inr (.inr ⟨fits, Nat.le_refl _⟩)))
    · exact absurd small (by simp [maxTypes])
  unfold typeFor at chosen
  by_cases large : break3 ≤ n
  · rw [if_pos large] at chosen
    by_cases low : n < break4
    · rw [if_pos low] at chosen
      cases chosen
      unfold break4 at low
      omega
    · rw [if_neg low] at chosen
      cases chosen
      omega
  · rw [if_neg large] at chosen
    unfold break3 at large
    by_cases low : n < break1
    · rw [if_pos low] at chosen
      unfold break1 at low
      omega
    · rw [if_neg low] at chosen
      by_cases next : n < break2
      · rw [if_pos next] at chosen
        cases chosen
        unfold break2 at next
        omega
      · rw [if_neg next] at chosen
        cases chosen
        omega

end Cs140e.LibpiFake.Random
