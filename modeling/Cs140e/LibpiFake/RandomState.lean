import Cs140e.LibpiFake.RandomSeed

/-!
# State arrays

A state array holds one generator: a header word and behind it the words of the
generator.  `pi_setstate_r` writes the header of the array it leaves and reads
that of the array it enters.
-/

namespace Cs140e.LibpiFake.Random

open Library

/-! ## Generators -/

/-- What is left of a generator between two calls: its type, the slot of the rear pointer
and the window of its table.  `TYPE_0` has one word. -/
structure Generator where
  type : Nat
  rear : Nat
  items : Nat → BitVec 32

namespace Generator

def value (g : Generator) : BitVec 32 :=
  if g.type = 0 then congruential (g.items 0)
  else chucked (Lagged.stream (degree g.type) (separation g.type) g.items (degree g.type))

def next (g : Generator) : Generator :=
  if g.type = 0 then { g with items := fun _ => congruential (g.items 0) }
  else
    { g with
      rear := (g.rear + 1) % degree g.type,
      items := Lagged.advance (degree g.type) (separation g.type) g.items }

theorem next_type (g : Generator) : g.next.type = g.type := by
  unfold next
  split
  · rfl
  · rfl

theorem iterate_next_type (g : Generator) (k : Nat) : (next^[k] g).type = g.type := by
  induction k with
  | zero => rfl
  | succ k ih => rw [Function.iterate_succ_apply', next_type, ih]

/-- The stream of a generator. -/
def output (g : Generator) (k : Nat) : BitVec 32 := (next^[k] g).value

theorem output_plain {g : Generator} (plain : g.type = 0) (k : Nat) :
    g.output k = congruential^[k + 1] (g.items 0) := by
  have items : (next^[k] g).items 0 = congruential^[k] (g.items 0) := by
    induction k with
    | zero => rfl
    | succ k ih =>
        rw [Function.iterate_succ_apply', Function.iterate_succ_apply', next,
          if_pos ((iterate_next_type g k).trans plain), ih]
  rw [output, value, if_pos ((iterate_next_type g k).trans plain), items,
    Function.iterate_succ_apply']

theorem output_table {g : Generator} (table : g.type ≠ 0) (k : Nat) :
    g.output k =
      chucked (Lagged.stream (degree g.type) (separation g.type) g.items (degree g.type + k)) := by
  have items : (next^[k] g).items =
      (Lagged.advance (degree g.type) (separation g.type))^[k] g.items := by
    induction k with
    | zero => rfl
    | succ k ih =>
        rw [Function.iterate_succ_apply', Function.iterate_succ_apply', next,
          if_neg fun plain => table ((iterate_next_type g k).symm.trans plain),
          iterate_next_type, ih]
  rw [output, value, iterate_next_type, if_neg table, items, Lagged.stream_advance, Nat.add_comm k]

/-- A generator that was just seeded. -/
def fresh (type : Nat) (seed : BitVec 32) : Generator where
  type := type
  rear := 0
  items :=
    if type = 0 then fun _ => usedSeed seed
    else (Lagged.advance (degree type) (separation type))^[degree type * 10] (seedItems type seed)

end Generator

/-- What a generator returns in the call number `k` after it was seeded. -/
def seeded (type : Nat) (seed : BitVec 32) (k : Nat) : BitVec 32 :=
  if type = 0 then congruential^[k + 1] (usedSeed seed)
  else chucked (Lagged.stream (degree type) (separation type) (seedItems type seed)
    (degree type * 11 + k))

theorem output_fresh (type : Nat) (seed : BitVec 32) (k : Nat) :
    (Generator.fresh type seed).output k = seeded type seed k := by
  by_cases plain : type = 0
  · rw [Generator.output_plain (g := Generator.fresh type seed) plain, seeded, if_pos plain,
      Generator.fresh, if_pos plain]
  · rw [Generator.output_table (g := Generator.fresh type seed) plain, seeded, if_neg plain,
      Generator.fresh, if_neg plain, Lagged.stream_advance,
      show degree type * 10 + (degree type + k) = degree type * 11 + k by omega]

/-! ## The generator in use -/

/-- The words behind `state` that a generator uses. -/
def Used (state type p : Nat) : Prop := state ≤ p ∧ p < state + max 1 (degree type)

theorem used_of_inTable {state type p : Nat} (inside : InTable state type p) :
    Used state type p := by
  unfold InTable at inside
  exact ⟨inside.1, by omega⟩

/-- The structure points to a generator at `state`. -/
inductive Serves (s : World) (state : Nat) : Generator → Prop
  | plain {rear : Nat} {items : Nat → BitVec 32} (formed : Formed s.data 0)
      (state_eq : s.data.state = state) (word : s.words state = items 0) :
      Serves s state ⟨0, rear, items⟩
  | table {type rear : Nat} {items : Nat → BitVec 32}
      (running : Running s state type rear items) : Serves s state ⟨type, rear, items⟩

theorem Formed.plain {data : PiRandomData} (formed : Formed data 0) : data.randType = 0#32 :=
  formed.type_eq

namespace Serves

variable {s : World} {state : Nat} {g : Generator}

theorem formed (serves : Serves s state g) : Formed s.data g.type := by
  cases serves with
  | plain formed _ _ => exact formed
  | table running => exact running.ready.formed

theorem state_eq (serves : Serves s state g) : s.data.state = state := by
  cases serves with
  | plain _ state_eq _ => exact state_eq
  | table running => exact running.state_eq

theorem running (serves : Serves s state g) (table : g.type ≠ 0) :
    Running s state g.type g.rear g.items := by
  cases serves with
  | plain _ _ _ => exact absurd rfl table
  | table running => exact running

/-- One call returns the next value and writes the words of the generator only. -/
theorem draw (serves : Serves s state g) :
    (Random.draw s).1 = g.value ∧ Serves (Random.draw s).2 state g.next ∧
      ∀ p, ¬Used state g.type p → (Random.draw s).2.words p = s.words p := by
  cases serves with
  | plain formed state_eq word =>
      subst state_eq
      unfold Random.draw
      rw [if_pos formed.plain, word]
      refine ⟨rfl, .plain formed rfl (Function.update_self _ _ _), ?_⟩
      intro p outside
      have other : p ≠ s.data.state := by
        rintro rfl
        exact outside ⟨Nat.le_refl _, by omega⟩
      exact Function.update_of_ne other _ _
  | table running =>
      have notZero := Nat.ne_of_gt running.ready.tabled.1
      obtain ⟨value, next, kept⟩ := running.next
      rw [Generator.value, Generator.next, if_neg notZero, if_neg notZero]
      exact ⟨value, .table next, fun p outside => kept p fun inside =>
        outside (used_of_inTable inside)⟩

theorem run (serves : Serves s state g) (k : Nat) :
    drawn s k = (0, some (g.output k)) ∧
      Serves (afterDraws s k) state (Generator.next^[k] g) ∧
      ∀ p, ¬Used state g.type p → (afterDraws s k).words p = s.words p := by
  have moves : Serves (afterDraws s k) state (Generator.next^[k] g) ∧
      ∀ p, ¬Used state g.type p → (afterDraws s k).words p = s.words p := by
    induction k with
    | zero => exact ⟨serves, fun _ _ => rfl⟩
    | succ k ih =>
        obtain ⟨before, kept⟩ := ih
        obtain ⟨-, after, same⟩ := before.draw
        have last : afterDraws s (k + 1) = (Random.draw (afterDraws s k)).2 :=
          Function.iterate_succ_apply' _ k s
        rw [Generator.iterate_next_type] at same
        rw [last, Function.iterate_succ_apply']
        exact ⟨after, fun p outside => (same p outside).trans (kept p outside)⟩
  obtain ⟨value, -, -⟩ := moves.1.draw
  have result : drawn s k = (0, some (Random.draw (afterDraws s k)).1) := rfl
  rw [result, value]
  exact ⟨rfl, moves⟩

end Serves

/-- The structure and the table of two worlds in which one generator is served. -/
theorem Running.unique {first second : World} {state type rear : Nat} {items : Nat → BitVec 32}
    (left : Running first state type rear items) (right : Running second state type rear items) :
    first.data = second.data ∧ ∀ p, InTable state type p → first.words p = second.words p := by
  refine ⟨left.ready.unique right.ready (left.state_eq.trans right.state_eq.symm), ?_⟩
  rintro p ⟨low, high⟩
  have front := frontOf_lt left.ready.tabled rear
  obtain ⟨slot, rfl⟩ := Nat.exists_eq_add_of_le low
  have inside : slot < degree type := by omega
  have place : (frontOf type rear + (slot + degree type - frontOf type rear) % degree type) %
      degree type = slot := by
    rw [Nat.add_mod_mod, show frontOf type rear + (slot + degree type - frontOf type rear) =
      slot + degree type by omega, Nat.add_mod_right, Nat.mod_eq_of_lt inside]
  have here := left.holds _ (Nat.mod_lt (slot + degree type - frontOf type rear) (by omega))
  have there := right.holds _ (Nat.mod_lt (slot + degree type - frontOf type rear) (by omega))
  rw [place] at here there
  exact here.trans there.symm

/-- `pi_srandom_r` starts the generator afresh, whatever the table and the pointers were. -/
theorem Formed.reseed {s : World} {type : Nat} (formed : Formed s.data type) (seed : BitVec 32) :
    (piSrandomR seed false s).1 = 0 ∧
      Serves (piSrandomR seed false s).2 s.data.state (Generator.fresh type seed) ∧
      ∀ p, ¬Used s.data.state type p → (piSrandomR seed false s).2.words p = s.words p := by
  by_cases plain : type = 0
  · subst plain
    have code : piSrandomR seed false s = (0, s.store s.data.state (usedSeed seed)) := by
      simp only [piSrandomR, Bool.false_eq_true, if_false, World.store, formed.plain, if_true]
      rfl
    rw [code]
    refine ⟨rfl, .plain ?_ rfl (Function.update_self _ _ _), ?_⟩
    · exact ⟨formed.small, formed.type_eq, formed.deg_eq, formed.sep_eq, formed.end_eq⟩
    · intro p outside
      have other : p ≠ s.data.state := by
        rintro rfl
        exact outside ⟨Nat.le_refl _, by omega⟩
      exact Function.update_of_ne other _ _
  · have tabled : Tabled type := ⟨Nat.pos_of_ne_zero plain, formed.small⟩
    obtain ⟨code, running, kept⟩ := formed.srandom tabled seed
    refine ⟨code, ?_, fun p outside => kept p fun inside => outside (used_of_inTable inside)⟩
    rw [Generator.fresh, if_neg plain]
    exact .table running

/-! ## Headers -/

/-- The header of a generator whose rear pointer is at a slot. -/
def headerOf (type rear : Nat) : BitVec 32 :=
  if type = 0 then 0#32 else BitVec.ofNat 32 (rear * maxTypes) + BitVec.ofNat 32 type

theorem headerOf_toInt {type rear : Nat} (tabled : Tabled type) (low : rear < degree type) :
    (headerOf type rear).toInt = (rear * 5 + type : Nat) := by
  have room : degree type ≤ 63 := by
    rcases tabled.cases with rfl | rfl | rfl | rfl <;> decide
  obtain ⟨positive, small⟩ := tabled
  unfold maxTypes at small
  rw [headerOf, if_neg (Nat.ne_of_gt positive), maxTypes, ← BitVec.ofNat_add, BitVec.toInt_ofNat',
    Int.bmod_eq_of_le]
  · omega
  · omega

theorem Serves.header {s : World} {state : Nat} {g : Generator} (serves : Serves s state g) :
    Random.header s.data = headerOf g.type g.rear := by
  cases serves with
  | plain formed _ _ =>
      rw [Random.header, if_pos formed.plain]
      rfl
  | table running =>
      obtain ⟨ready, rfl, -⟩ := running
      have notZero : s.data.randType ≠ 0#32 := ready.type_eq ▸ ready.tabled.type_ne
      rw [Random.header, if_neg notZero, headerOf, if_neg (Nat.ne_of_gt ready.tabled.1),
        ready.rptr_eq, Nat.add_sub_cancel_left, ready.type_eq]

/-- The words of a state array. -/
def InArray (argState type p : Nat) : Prop :=
  argState ≤ p ∧ p < argState + 1 + max 1 (degree type)

theorem inArray_of_used {argState type p : Nat} (used : Used (argState + 1) type p) :
    InArray argState type p :=
  ⟨Nat.le_of_succ_le used.1, used.2⟩

theorem inArray_header (argState type : Nat) : InArray argState type argState :=
  ⟨Nat.le_refl _, by omega⟩

/-- A state array from which `pi_setstate_r` takes the generator up again. -/
inductive Kept (words : Words) (argState : Nat) : Generator → Prop
  | plain {rear : Nat} {items : Nat → BitVec 32} (header : words argState = 0#32)
      (word : words (argState + 1) = items 0) : Kept words argState ⟨0, rear, items⟩
  | table {type rear : Nat} {items : Nat → BitVec 32} (tabled : Tabled type)
      (low : rear < degree type) (header : words argState = headerOf type rear)
      (holds : Lagged.Holds (degree type) (slots words (argState + 1)) (frontOf type rear) items) :
      Kept words argState ⟨type, rear, items⟩

theorem Kept.header {words : Words} {argState : Nat} {g : Generator}
    (kept : Kept words argState g) : words argState = headerOf g.type g.rear := by
  cases kept with
  | plain header _ => exact header
  | table _ _ header _ => exact header

theorem Kept.frame {words changed : Words} {argState : Nat} {g : Generator}
    (kept : Kept words argState g)
    (same : ∀ p, InArray argState g.type p → changed p = words p) : Kept changed argState g := by
  cases kept with
  | plain header word =>
      refine .plain ((same _ (inArray_header _ _)).trans header) ((same _ ?_).trans word)
      exact ⟨Nat.le_succ _, by omega⟩
  | @table type rear items tabled low header holds =>
      refine .table tabled low ((same _ (inArray_header _ _)).trans header) fun i inside => ?_
      have slot : (frontOf type rear + i) % degree type < degree type := Nat.mod_lt _ (by omega)
      refine (same _ ⟨by omega, ?_⟩).trans (holds i inside)
      show argState + 1 + (frontOf type rear + i) % degree type <
        argState + 1 + max 1 (degree type)
      omega

/-- Storing the header makes an array that can be taken up again. -/
theorem Serves.store_header {s : World} {argState : Nat} {g : Generator}
    (serves : Serves s (argState + 1) g) :
    Kept (Function.update s.words argState (Random.header s.data)) argState g := by
  have stored : Function.update s.words argState (Random.header s.data) argState =
      headerOf g.type g.rear := (Function.update_self _ _ _).trans serves.header
  have other (p : Nat) (behind : argState < p) :
      Function.update s.words argState (Random.header s.data) p = s.words p :=
    Function.update_of_ne (Nat.ne_of_gt behind) _ _
  cases serves with
  | plain _ _ word => exact .plain stored ((other _ (Nat.lt_succ_self _)).trans word)
  | table running =>
      obtain ⟨ready, -, holds⟩ := running
      refine .table ready.tabled ready.rear_lt stored fun i inside => ?_
      exact (other _ (by omega)).trans (holds i inside)

/-! ## `pi_setstate_r` -/

/-- The header word is written before the one of the array entered is read. -/
def leave (s : World) : World := s.store (s.data.state - 1) (header s.data)

theorem setstate_enters {s : World} {argState : Nat} {g : Generator}
    (kept : Kept (leave s).words argState g) :
    (piSetstateR (some argState) false s).1 = 0 ∧
      Serves (piSetstateR (some argState) false s).2 (argState + 1) g ∧
      (piSetstateR (some argState) false s).2.words = (leave s).words := by
  cases kept with
  | plain header word =>
      have read : (s.store (s.data.state - 1) (Random.header s.data)).words argState = 0#32 :=
        header
      simp only [piSetstateR, Bool.false_eq_true, if_false, Nat.add_sub_cancel, read,
        show (0#32).toInt.tmod maxTypes = 0 by decide]
      exact ⟨rfl, .plain ⟨by decide, rfl, rfl, rfl, rfl⟩ rfl word, rfl⟩
  | @table type rear items tabled low header holds =>
      have read : ((s.store (s.data.state - 1) (Random.header s.data)).words argState).toInt =
          (rear * 5 + type : Nat) := by
        rw [← headerOf_toInt tabled low, ← header]
        rfl
      have small : type < 5 := tabled.2
      have typeRead : ((rear * 5 + type : Nat) : Int).tmod maxTypes = (type : Nat) := by
        have remainder : (rear * 5 + type) % 5 = type := by omega
        exact congrArg Int.ofNat remainder
      have rearRead : ((rear * 5 + type : Nat) : Int).tdiv maxTypes = (rear : Nat) := by
        have quotient : (rear * 5 + type) / 5 = rear := by omega
        exact congrArg Int.ofNat quotient
      have accepted : ¬(((type : Nat) : Int) < 0 ∨ 4 < ((type : Nat) : Int)) := by omega
      have notZero : ((type : Nat) : Int) ≠ 0 := by
        have positive := tabled.1
        omega
      simp only [piSetstateR, Bool.false_eq_true, if_false, Nat.add_sub_cancel, read, typeRead,
        rearRead, accepted, notZero, ne_eq, not_false_eq_true, if_true, Int.toNat_natCast,
        BitVec.ofInt_natCast]
      exact ⟨trivial, .table ⟨⟨tabled, rfl, rfl, rfl, rfl, low, rfl, rfl⟩, rfl, holds⟩, rfl⟩

end Cs140e.LibpiFake.Random
