import Cs140e.LibpiFake.RandomState

/-!
# Several generators

`pi_initstate_r` sets up a generator in a state array.  With several arrays set up,
calls of `pi_setstate_r` and `pi_random_r` may come in any order.
-/

namespace Cs140e.LibpiFake.Random

open Library

/-! ## `pi_initstate_r` -/

/-- The structure before `pi_srandom_r` is called. -/
def formed (data : PiRandomData) (state type : Nat) : PiRandomData :=
  { data with
    randType := BitVec.ofNat 32 type, randSep := separation type, randDeg := degree type,
    endPtr := state + degree type, state := state }

theorem initstate_eq {n type : Nat} (chosen : typeFor n = some type) (seed : BitVec 32)
    (argState : Nat) (s : World) :
    piInitstateR seed argState n false s =
      let s := (piSrandomR seed false { s with data := formed s.data (argState + 1) type }).2
      (0, s.store argState (header s.data)) := by
  simp only [piInitstateR, Bool.false_eq_true, if_false, chosen]
  rfl

theorem Serves.store_outside {s : World} {state p : Nat} {g : Generator} {word : BitVec 32}
    (serves : Serves s state g) (outside : ¬Used state g.type p) :
    Serves (s.store p word) state g := by
  cases serves with
  | plain formed state_eq read =>
      refine .plain formed state_eq (Eq.trans (Function.update_of_ne ?_ _ _) read)
      rintro rfl
      exact outside ⟨Nat.le_refl _, by omega⟩
  | @table type rear items running =>
      obtain ⟨ready, state_eq, holds⟩ := running
      refine .table ⟨ready, state_eq, fun i inside => ?_⟩
      have low : (frontOf type rear + i) % degree type < degree type := Nat.mod_lt _ (by omega)
      refine Eq.trans (Function.update_of_ne ?_ _ _) (holds i inside)
      rintro rfl
      exact outside (used_of_inTable ⟨Nat.le_add_right _ _, Nat.add_lt_add_left low _⟩)

/-- The array is in use, could be taken up again, and no other word is written. -/
theorem initstate_serves {n type : Nat} (chosen : typeFor n = some type) (seed : BitVec 32)
    (argState : Nat) (s : World) :
    (piInitstateR seed argState n false s).1 = 0 ∧
      Serves (piInitstateR seed argState n false s).2 (argState + 1) (.fresh type seed) ∧
      Kept (piInitstateR seed argState n false s).2.words argState (.fresh type seed) ∧
      ∀ p, ¬InArray argState type p →
        (piInitstateR seed argState n false s).2.words p = s.words p := by
  have start : Formed (formed s.data (argState + 1) type) type :=
    ⟨(typeFor_room chosen).1, rfl, rfl, rfl, rfl⟩
  obtain ⟨-, serves, same⟩ :=
    Formed.reseed (s := { s with data := formed s.data (argState + 1) type }) start seed
  rw [initstate_eq chosen]
  refine ⟨rfl, serves.store_outside ?_, serves.store_header, ?_⟩
  · rintro ⟨low, -⟩
    exact Nat.not_succ_le_self _ low
  · intro p outside
    have other : p ≠ argState := by
      rintro rfl
      exact outside (inArray_header _ _)
    exact (Function.update_of_ne other _ _).trans
      (same p fun used => outside (inArray_of_used used))

/-- With fewer than eight bytes nothing is done.  Otherwise the generator with the greatest
degree that fits is seeded, every later value is that of its recurrence, also after another
`pi_srandom_r`, and no word outside the array is ever written. -/
theorem pi_initstate_r_starts_stream (seed : BitVec 32) (argState n : Nat) (s : World) :
    (n < break0 ∧ piInitstateR seed argState n false s = (-1, s)) ∨
      ∃ type s', typeFor n = some type ∧ 4 * (1 + max 1 (degree type)) ≤ n ∧
        (∀ other < maxTypes, 4 * (1 + max 1 (degree other)) ≤ n → other ≤ type) ∧
        piInitstateR seed argState n false s = (0, s') ∧
        (∀ k, drawn s' k = (0, some (seeded type seed k))) ∧
        (∀ k p, ¬InArray argState type p → (afterDraws s' k).words p = s.words p) ∧
        ∀ k again i, drawn (piSrandomR again false (afterDraws s' k)).2 i =
          (0, some (seeded type again i)) := by
  cases chosen : typeFor n with
  | none =>
      refine .inl ⟨typeFor_eq_none.mp chosen, ?_⟩
      simp only [piInitstateR, Bool.false_eq_true, if_false, chosen]
  | some type =>
      obtain ⟨code, serves, -, same⟩ := initstate_serves chosen seed argState s
      refine .inr ⟨type, (piInitstateR seed argState n false s).2, rfl, (typeFor_room chosen).2,
        fun other small fits => typeFor_greatest chosen small fits,
        Prod.ext code rfl, fun k => ?_, fun k p outside => ?_, fun k again i => ?_⟩
      · rw [(serves.run k).1, output_fresh]
      · refine ((serves.run k).2.2 p fun used => outside ?_).trans (same p outside)
        exact inArray_of_used used
      · have running := (serves.run k).2.1
        have reseeded := (running.formed.reseed again).2.1
        rw [Generator.iterate_next_type] at reseeded
        rw [(reseeded.run i).1]
        exact congrArg (fun value => (0, some value)) (output_fresh type again i)

/-! ## Calls in any order -/

section

variable {ι : Type} [DecidableEq ι]

/-- A state array of `n` bytes and the seed given with it. -/
structure Area where
  argState : Nat
  n : Nat
  seed : BitVec 32

def Area.type (area : Area) : Nat := (typeFor area.n).getD 0

def Area.init (area : Area) (s : World) : World :=
  (piInitstateR area.seed area.argState area.n false s).2

/-- `pi_initstate_r` for the arrays of a list in turn. -/
def initAll (areas : ι → Area) (order : List ι) (s : World) : World :=
  order.foldl (fun s i => (areas i).init s) s

inductive Call (ι : Type) where
  | random
  | setstate (i : ι)

/-- The calls of a caller who takes a code that is not zero for a failure.  Every value drawn
is listed with the array in use. -/
def run (areas : ι → Area) : ι → World → List (Call ι) → Option (List (ι × BitVec 32))
  | _, _, [] => some []
  | active, s, .random :: calls =>
      match piRandomR false false s with
      | ((0, some value), s) => (run areas active s calls).map fun rest => (active, value) :: rest
      | _ => none
  | _, s, .setstate i :: calls =>
      match piSetstateR (some (areas i).argState) false s with
      | (0, s) => run areas i s calls
      | _ => none

/-- The arrays in use at the calls of `pi_random_r`. -/
def users : ι → List (Call ι) → List ι
  | _, [] => []
  | active, .random :: calls => active :: users active calls
  | _, .setstate i :: calls => users i calls

/-- The values drawn with an array in use. -/
def drawnFrom (i : ι) (drawn : List (ι × BitVec 32)) : List (BitVec 32) :=
  (drawn.filter fun entry => entry.1 = i).map Prod.snd

/-- One array is in use and the others can be taken up. -/
structure Shared (areas : ι → Area) (active : ι) (gens : ι → Generator) (s : World) : Prop where
  types : ∀ i, (gens i).type = (areas i).type
  serves : Serves s ((areas active).argState + 1) (gens active)
  kept : ∀ i, i ≠ active → Kept s.words (areas i).argState (gens i)

/-- No word belongs to two arrays. -/
def Apart (areas : ι → Area) : Prop :=
  ∀ i j, i ≠ j → ∀ p, InArray (areas i).argState (areas i).type p →
    ¬InArray (areas j).argState (areas j).type p

variable {areas : ι → Area} {active : ι} {gens : ι → Generator} {s : World}

theorem Shared.draw (apart : Apart areas) (shared : Shared areas active gens s) :
    piRandomR false false s = ((0, some (gens active).value), (Random.draw s).2) ∧
      Shared areas active (Function.update gens active (gens active).next) (Random.draw s).2 := by
  obtain ⟨types, serves, kept⟩ := shared
  obtain ⟨value, next, same⟩ := serves.draw
  refine ⟨?_, fun i => ?_, ?_, fun i other => ?_⟩
  · rw [← value]
    rfl
  · by_cases here : i = active
    · subst here
      rw [Function.update_self, Generator.next_type, types]
    · rw [Function.update_of_ne here, types]
  · rw [Function.update_self]
    exact next
  · rw [Function.update_of_ne other]
    refine (kept i other).frame fun p inside => same p fun used => ?_
    rw [types] at inside used
    exact apart i active other p inside (inArray_of_used used)

theorem Shared.setstate (apart : Apart areas) (shared : Shared areas active gens s) (i : ι) :
    ∃ s', piSetstateR (some (areas i).argState) false s = (0, s') ∧ Shared areas i gens s' := by
  obtain ⟨types, serves, kept⟩ := shared
  have left : leave s = s.store (areas active).argState (header s.data) := by
    rw [leave, serves.state_eq, Nat.add_sub_cancel]
  have all (j : ι) : Kept (leave s).words (areas j).argState (gens j) := by
    rw [left]
    by_cases here : j = active
    · subst here
      exact serves.store_header
    · refine (kept j here).frame fun p inside => Function.update_of_ne ?_ _ _
      rintro rfl
      rw [types] at inside
      exact apart j active here _ inside (inArray_header _ _)
  obtain ⟨code, entered, words⟩ := setstate_enters (all i)
  refine ⟨_, Prod.ext code rfl, types, entered, fun j _ => ?_⟩
  rw [words]
  exact all j

theorem Shared.run (apart : Apart areas) (shared : Shared areas active gens s)
    (calls : List (Call ι)) :
    ∃ drawn, Random.run areas active s calls = some drawn ∧
      drawn.map Prod.fst = users active calls ∧
      ∀ i, drawnFrom i drawn = (List.range (drawnFrom i drawn).length).map (gens i).output := by
  induction calls generalizing active gens s with
  | nil => exact ⟨[], rfl, rfl, fun _ => rfl⟩
  | cons call calls ih =>
      cases call with
      | random =>
          obtain ⟨call, next⟩ := shared.draw apart
          obtain ⟨drawn, ran, order, streams⟩ := ih next
          refine ⟨(active, (gens active).value) :: drawn, ?_, ?_, fun i => ?_⟩
          · rw [Random.run, call]
            simp only [ran, Option.map_some]
          · rw [List.map_cons, order, users]
          · have stream := streams i
            by_cases here : active = i
            · subst here
              rw [Function.update_self] at stream
              have first : drawnFrom active ((active, (gens active).value) :: drawn) =
                  (gens active).value :: drawnFrom active drawn := by
                simp [drawnFrom]
              rw [first, List.length_cons, List.range_succ_eq_map, List.map_cons, List.map_map,
                stream, List.length_map, List.length_range]
              rfl
            · rw [Function.update_of_ne fun same => here same.symm] at stream
              have first : drawnFrom i ((active, (gens active).value) :: drawn) =
                  drawnFrom i drawn := by
                simp [drawnFrom, here]
              rw [first]
              exact stream
      | setstate i =>
          obtain ⟨s', call, next⟩ := shared.setstate apart i
          obtain ⟨drawn, ran, order, streams⟩ := ih next
          refine ⟨drawn, ?_, order, streams⟩
          rw [Random.run, call]
          exact ran

/-- The generator that `pi_initstate_r` makes in an area. -/
def Area.fresh (area : Area) : Generator := .fresh area.type area.seed

theorem Area.chosen {area : Area} (roomy : break0 ≤ area.n) : typeFor area.n = some area.type := by
  cases chosen : typeFor area.n with
  | none => exact absurd (typeFor_eq_none.mp chosen) (Nat.not_lt_of_le roomy)
  | some type => rw [Area.type, chosen, Option.getD_some]

omit [DecidableEq ι] in
theorem initAll_concat (areas : ι → Area) (order : List ι) (last : ι) (s : World) :
    initAll areas (order ++ [last]) s = (areas last).init (initAll areas order s) := by
  rw [initAll, List.foldl_append]
  rfl

theorem initAll_kept (roomy : ∀ i, break0 ≤ (areas i).n) (apart : Apart areas) (order : List ι)
    (s : World) {i : ι} (listed : i ∈ order) :
    Kept (initAll areas order s).words (areas i).argState (areas i).fresh := by
  induction order using List.reverseRecOn with
  | nil => cases listed
  | append_singleton order last ih =>
      obtain ⟨-, -, kept, same⟩ := initstate_serves (Area.chosen (roomy last)) (areas last).seed
        (areas last).argState (initAll areas order s)
      rw [initAll_concat]
      by_cases here : i = last
      · subst here
        exact kept
      · have before : i ∈ order := by
          rcases List.mem_append.mp listed with earlier | final
          · exact earlier
          · exact absurd (List.mem_singleton.mp final) here
        exact (ih before).frame fun p inside => same p (apart i last here p inside)

/-- Once every array was set up, calls of `pi_random_r` and `pi_setstate_r` succeed in every
order, and the values drawn with an array are the stream of its seed, as if its generator
were the only one. -/
theorem pi_setstate_r_keeps_streams (areas : ι → Area) (roomy : ∀ i, break0 ≤ (areas i).n)
    (apart : Apart areas) (order : List ι) (last : ι) (complete : ∀ i, i ∈ order ++ [last])
    (s : World) (calls : List (Call ι)) :
    ∃ drawn, run areas last (initAll areas (order ++ [last]) s) calls = some drawn ∧
      drawn.map Prod.fst = users last calls ∧
      ∀ i, drawnFrom i drawn = (List.range (drawnFrom i drawn).length).map
        (seeded (areas i).type (areas i).seed) := by
  have shared : Shared areas last (fun i => (areas i).fresh)
      (initAll areas (order ++ [last]) s) := by
    refine ⟨fun _ => rfl, ?_, fun i _ => initAll_kept roomy apart _ s (complete i)⟩
    rw [initAll_concat]
    exact (initstate_serves (Area.chosen (roomy last)) _ _ _).2.1
  obtain ⟨drawn, ran, order, streams⟩ := shared.run apart calls
  refine ⟨drawn, ran, order, fun i => (streams i).trans ?_⟩
  exact List.map_congr_left fun k _ => output_fresh _ _ k

/-- An area of 8 bytes and one of 32 bytes behind it. -/
def twoAreas (i : Bool) : Area :=
  if i then { argState := 2, n := 32, seed := 5#32 } else { argState := 0, n := 8, seed := 3#32 }

theorem pi_setstate_r_keeps_streams_two :
    ∃ drawn, run twoAreas true (initAll twoAreas [false, true] smallWorld)
        [.random, .setstate false, .random, .setstate true, .random] = some drawn ∧
      drawn.map Prod.fst = [true, false, true] ∧
      drawnFrom true drawn = (List.range (drawnFrom true drawn).length).map (seeded 1 5#32) := by
  obtain ⟨drawn, ran, order, streams⟩ := pi_setstate_r_keeps_streams twoAreas
    (by decide)
    (by
      intro i j other p inside
      cases i <;> cases j
      · exact absurd rfl other
      · have high : p < 2 := inside.2
        exact fun there => absurd there.1 (Nat.not_le_of_lt high)
      · have low : 2 ≤ p := inside.1
        exact fun there => absurd there.2 (Nat.not_lt_of_le low)
      · exact absurd rfl other)
    [false] true (by decide) smallWorld
    [.random, .setstate false, .random, .setstate true, .random]
  exact ⟨drawn, ran, order, streams true⟩

end

/-! ## The position that is not saved -/

end Cs140e.LibpiFake.Random
