import Cs140e.LibpiFake.RandomSwitch

/-!
# The random numbers of the tests

`pi-test.c` and the trials of `driver.c`.  The fake pi has one generator, in
static memory.  A trial runs in a forked child, which works on a copy of the
state of its parent.
-/

namespace Cs140e.LibpiFake.PiTest

open LibpiFake.Random

/-- The state that a test finds: the generator with its `init_p`, and the fake time. -/
structure Machine where
  initP : Bool
  r : World
  timeUsec : BitVec 32

def stateSize : Nat := 128

/-- `static int seed` -/
def seed : BitVec 32 := 0#32

/-- The word number of `statebuf`. -/
def statebuf : Nat := 0

/-- The structure after `memset`. -/
def zeroed : PiRandomData where
  fptr := 0
  rptr := 0
  state := 0
  randType := 0#32
  randDeg := 0
  randSep := 0
  endPtr := 0

-- Irreducible, since the elaborator would otherwise run the 310 discarded draws.
/-- `none`: an assertion failed. -/
@[irreducible] def fakeRandomSeed (_x : BitVec 32) (m : Machine) : Option Machine :=
  match piInitstateR seed statebuf stateSize false { m.r with data := zeroed } with
  | (0, r) =>
      match piSrandomR seed false r with
      | (0, r) => some { m with initP := true, r := r }
      | _ => none
  | _ => none

def fakeRandom (m : Machine) : Option (BitVec 64 × Machine) :=
  if m.initP then
    match piRandomR false false m.r with
    | ((0, some x), r) => some (x.signExtend 64, { m with r := r })
    | _ => none
  else none

def fakeRandomCheck (m : Machine) : Option (BitVec 32 × Machine) :=
  match fakeRandomSeed 0#32 m with
  | none => none
  | some m =>
      match fakeRandom m with
      | none => none
      | some (u, m) => if u.setWidth 32 = 0x6b8b4567#32 then some (u.setWidth 32, m) else none

def fakeTimeInit (initTime : BitVec 32) (m : Machine) : Machine := { m with timeUsec := initTime }

def fakePiInit (m : Machine) : Option Machine :=
  match fakeRandomCheck m with
  | none => none
  | some (u, m) => some (fakeTimeInit u m)

/-- The trials of `fancy_check` from number `i` on, each with what its child prints; the lines
that the parent traces, with `i` in them, are left out.  `notmain` gives the output and the exit
code, which stands for a crash if it is not 0.  `none`: a panic. -/
def fancyCheck (notmain : Machine → String × Nat) (i : Nat) : Nat → Machine → Option (List String)
  | 0, _ => some []
  | n + 1, m =>
      match fakeRandomSeed (BitVec.ofNat 32 i) m with
      | none => none
      | some m =>
          let (output, ret) := notmain m
          if ret = 0 then (fancyCheck notmain (i + 1) n m).map fun rest => output :: rest
          else none

/-- `main` with an argument of which `atoi` makes `n`. -/
def driver (notmain : Machine → String × Nat) (n : Int32) (m : Machine) : Option (List String) :=
  match fakePiInit m with
  | none => none
  | some m => if n = 0 then none else fancyCheck notmain 0 n.toInt.toNat m

/-- The values of `n` calls of `fake_random`. -/
def randoms : Nat → Machine → Option (List (BitVec 64))
  | 0, _ => some []
  | n + 1, m =>
      match fakeRandom m with
      | none => none
      | some (u, m) => (randoms n m).map fun rest => u :: rest

/-! ## Seeding -/

/-- The machine after a call of `fake_random_seed`, seen apart from other memory. -/
structure Seeded (m : Machine) (g : Generator) : Prop where
  initP : m.initP = true
  serves : Serves m.r (statebuf + 1) g

theorem Seeded.random {m : Machine} {g : Generator} (ready : Seeded m g) :
    ∃ m', fakeRandom m = some (g.value.signExtend 64, m') ∧ Seeded m' g.next ∧
      m'.timeUsec = m.timeUsec ∧
      ∀ p, ¬InArray statebuf g.type p → m'.r.words p = m.r.words p := by
  obtain ⟨value, next, same⟩ := ready.serves.draw
  refine ⟨{ m with r := (draw m.r).2 }, ?_, ⟨ready.initP, next⟩, rfl, fun p outside => ?_⟩
  · rw [fakeRandom, if_pos ready.initP, ← value]
    rfl
  · exact same p fun used => outside (inArray_of_used used)

theorem Seeded.randoms {m : Machine} {g : Generator} (ready : Seeded m g) (n : Nat) :
    PiTest.randoms n m = some ((List.range n).map fun k => (g.output k).signExtend 64) := by
  induction n generalizing m g with
  | zero => rfl
  | succ n ih =>
      obtain ⟨m', value, next, -, -⟩ := ready.random
      rw [PiTest.randoms, value]
      simp only [ih next, Option.map_some, List.range_succ_eq_map, List.map_cons, List.map_map]
      rfl

theorem seed_serves (x : BitVec 32) (m : Machine) :
    ∃ m', fakeRandomSeed x m = some m' ∧ Seeded m' (.fresh 3 seed) ∧
      m'.timeUsec = m.timeUsec ∧ m'.r.words statebuf = headerOf 3 0 ∧
      ∀ p, ¬InArray statebuf 3 p → m'.r.words p = m.r.words p := by
  have chosen : typeFor stateSize = some 3 := by decide
  obtain ⟨code, serves, kept, same⟩ :=
    initstate_serves chosen seed statebuf { m.r with data := zeroed }
  have formed : Formed _ 3 := serves.formed
  obtain ⟨again, reseeded, untouched⟩ := formed.reseed seed
  rw [serves.state_eq] at reseeded untouched
  unfold fakeRandomSeed
  generalize piInitstateR seed statebuf stateSize false { m.r with data := zeroed } = made at *
  obtain ⟨_, r⟩ := made
  subst code
  simp only
  generalize piSrandomR seed false r = done at *
  obtain ⟨_, r'⟩ := done
  subst again
  refine ⟨_, rfl, ⟨rfl, reseeded⟩, rfl, ?_, fun p outside => ?_⟩
  · refine (untouched statebuf ?_).trans kept.header
    rintro ⟨low, -⟩
    exact Nat.not_succ_le_self _ low
  · exact (untouched p fun used => outside (inArray_of_used used)).trans (same p outside)

/-- Seeding forgets the numbers drawn and the number it is given. -/
theorem seed_forgets (x y : BitVec 32) {m n : Machine} (time : m.timeUsec = n.timeUsec)
    (outside : ∀ p, ¬InArray statebuf 3 p → m.r.words p = n.r.words p) :
    fakeRandomSeed x m = fakeRandomSeed y n := by
  obtain ⟨m', left, ⟨initP, serves⟩, timed, header, same⟩ := seed_serves x m
  obtain ⟨n', right, ⟨initP', serves'⟩, timed', header', same'⟩ := seed_serves y n
  have table : (Generator.fresh 3 seed).type ≠ 0 := by decide
  obtain ⟨data, words⟩ := (serves.running table).unique (serves'.running table)
  have memory : m'.r.words = n'.r.words := by
    funext p
    by_cases inside : InArray statebuf 3 p
    · by_cases first : p = statebuf
      · rw [first, header, header']
      · have after : statebuf + 1 ≤ p := Nat.lt_of_le_of_ne inside.1 (Ne.symm first)
        exact words p ⟨after, inside.2⟩
    · rw [same p inside, same' p inside, outside p inside]
  rw [left, right]
  have worlds : m'.r = n'.r := by
    cases hm : m'.r
    cases hn : n'.r
    rw [hm, hn] at data memory
    congr
  have machines : m' = n' := by
    cases m'
    cases n'
    simp_all
  rw [machines]

/-! ## Trials -/

theorem fakePiInit_passes (m : Machine) :
    ∃ m', fakePiInit m = some m' ∧ m'.timeUsec = 0x6b8b4567#32 ∧
      Seeded m' (Generator.fresh 3 seed).next := by
  obtain ⟨first, called, ready, -, -, -⟩ := seed_serves 0#32 m
  obtain ⟨next, value, after, -, -⟩ := ready.random
  have expected : ((Generator.fresh 3 seed).value.signExtend 64).setWidth 32 = 0x6b8b4567#32 := by
    decide +kernel
  refine ⟨fakeTimeInit 0x6b8b4567#32 next, ?_, rfl, after.initP, after.serves⟩
  simp only [fakePiInit, fakeRandomCheck, called, value, expected, if_true]

theorem fancyCheck_eq (notmain : Machine → String × Nat) {start : Machine}
    (again : ∀ x, fakeRandomSeed x start = some start) (n i : Nat) {m : Machine}
    (seeds : ∀ x, fakeRandomSeed x m = some start) :
    fancyCheck notmain i n m =
      if n = 0 ∨ (notmain start).2 = 0 then some (List.replicate n (notmain start).1)
      else none := by
  induction n generalizing i m with
  | zero => rfl
  | succ n ih =>
      simp only [fancyCheck, seeds]
      by_cases ret : (notmain start).2 = 0
      · rw [if_pos ret, ih _ again, if_pos (.inr ret), if_pos (.inr ret), Option.map_some,
          List.replicate_succ]
      · rw [if_neg ret, if_neg (not_or.mpr ⟨Nat.succ_ne_zero n, ret⟩)]

/-- The loop counts up from 0. -/
theorem trials_of (n : Int32) :
    n = 0 ∨ (n < 0 ∧ n.toInt.toNat = 0) ∨ (0 < n ∧ 0 < n.toInt.toNat) := by
  rw [Int32.lt_iff_toInt_lt, Int32.lt_iff_toInt_lt, ← Int32.toInt_inj, Int32.toInt_zero]
  omega

/-- The trials differ in the number that seeds them, but every child finds the same machine:
whatever the program under test does, each trial prints what the first one prints.  A
negative number makes no trials, and 0 fails the assertion of `main`. -/
theorem fancy_check_repeats_first_trial (notmain : Machine → String × Nat) (m : Machine) :
    ∃ start, start.timeUsec = 0x6b8b4567#32 ∧
      (∀ n, randoms n start =
        some ((List.range n).map fun k => (seeded 3 0#32 k).signExtend 64)) ∧
      ∀ n, driver notmain n m =
        if n < 0 ∨ 0 < n ∧ (notmain start).2 = 0 then
          some (List.replicate n.toInt.toNat (notmain start).1)
        else none := by
  obtain ⟨m', passed, timed, -⟩ := fakePiInit_passes m
  obtain ⟨start, called, ready, time, -, same⟩ := seed_serves 0#32 m'
  have seeds (x : BitVec 32) : fakeRandomSeed x m' = some start :=
    (seed_forgets x 0#32 rfl fun _ _ => rfl).trans called
  have again (x : BitVec 32) : fakeRandomSeed x start = some start :=
    (seed_forgets x 0#32 time same).trans called
  refine ⟨start, time.trans timed, fun n => ?_, fun n => ?_⟩
  · rw [ready.randoms]
    exact congrArg some (List.map_congr_left fun k _ =>
      congrArg (BitVec.signExtend 64) (output_fresh 3 seed k))
  · rw [driver, passed]
    dsimp only
    rcases trials_of n with rfl | ⟨negative, none⟩ | ⟨positive, some⟩
    · rfl
    · have nonzero : n ≠ 0 := by
        rintro rfl
        exact absurd negative (by decide)
      rw [if_neg nonzero, if_pos (.inl negative), none]
      rfl
    · have nonzero : n ≠ 0 := by
        rintro rfl
        exact absurd positive (by decide)
      have notNegative : ¬ n < 0 := fun negative =>
        absurd (Int32.lt_trans positive negative) Int32.lt_irrefl
      rw [if_neg nonzero, fancyCheck_eq notmain again _ 0 seeds]
      simp only [notNegative, positive, Nat.ne_of_gt some, false_or, true_and]

end Cs140e.LibpiFake.PiTest
