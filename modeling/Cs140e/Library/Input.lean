import Mathlib.Data.List.TakeWhile
import Cs140e.Library.Simulation

/-!
# Programs that read a list from the front

The list is the input still to be read.  Reading past its end blocks, for more
may arrive one day.
-/

namespace Cs140e.Library.Input

variable {ι α β : Type}

/-- Read the next item. -/
def next : Prog (List ι) ι
  | [] => .error .blocked []
  | item :: rest => .ok item rest

/-- Look at the next item. -/
def front : Prog (List ι) ι
  | [] => .error .blocked []
  | item :: rest => .ok item (item :: rest)

@[simp]
theorem next_nil : next ([] : List ι) = .error .blocked [] := rfl

@[simp]
theorem next_cons (item : ι) (rest : List ι) : next (item :: rest) = .ok item rest := rfl

@[simp]
theorem front_nil : front ([] : List ι) = .error .blocked [] := rfl

@[simp]
theorem front_cons (item : ι) (rest : List ι) :
    front (item :: rest) = .ok item (item :: rest) := rfl

/-- Skip the items that satisfy the test, and block when there is no other. -/
def skipWhile (test : ι → Bool) : Prog (List ι) Unit
  | [] => .error .blocked []
  | item :: rest => if test item then skipWhile test rest else .ok () (item :: rest)

theorem skipWhile_cons_of {test : ι → Bool} {item : ι} (yes : test item = true) (rest : List ι) :
    skipWhile test (item :: rest) = skipWhile test rest := by
  rw [skipWhile, if_pos yes]

theorem skipWhile_cons_of_not {test : ι → Bool} {item : ι} (no : test item = false)
    (rest : List ι) : skipWhile test (item :: rest) = .ok () (item :: rest) := by
  rw [skipWhile, if_neg (by rw [no]; exact Bool.false_ne_true)]

/-- The items skipped are exactly those of `List.dropWhile`. -/
theorem skipWhile_eq (test : ι → Bool) (input : List ι) :
    skipWhile test input =
      if input.dropWhile test = [] then .error .blocked [] else .ok () (input.dropWhile test) := by
  induction input with
  | nil => rfl
  | cons item rest ih =>
      cases verdict : test item with
      | true => rw [skipWhile_cons_of verdict, ih, List.dropWhile_cons_of_pos verdict]
      | false =>
          rw [skipWhile_cons_of_not verdict,
            List.dropWhile_cons_of_neg (by rw [verdict]; exact Bool.false_ne_true),
            if_neg (List.cons_ne_nil item rest)]

/-- The first item that is kept fails the test. -/
theorem head_of_dropWhile {test : ι → Bool} {input rest : List ι} {item : ι}
    (kept : input.dropWhile test = item :: rest) : test item = false := by
  induction input with
  | nil => cases kept
  | cons first input ih =>
      cases verdict : test first with
      | true =>
          rw [List.dropWhile_cons_of_pos verdict] at kept
          exact ih kept
      | false =>
          rw [List.dropWhile_cons_of_neg (by rw [verdict]; exact Bool.false_ne_true)] at kept
          cases kept
          exact verdict

/-- Items that satisfy the test may be skipped before the others are. -/
theorem dropWhile_append_of_all {test : ι → Bool} {skipped : List ι}
    (all : ∀ item ∈ skipped, test item = true) (rest : List ι) :
    (skipped ++ rest).dropWhile test = rest.dropWhile test := by
  induction skipped with
  | nil => rfl
  | cons item skipped ih =>
      rw [List.cons_append, List.dropWhile_cons_of_pos (all item List.mem_cons_self)]
      exact ih fun other mem => all other (List.mem_cons_of_mem _ mem)

/-- Skipping less before skipping more makes no difference. -/
theorem dropWhile_dropWhile {less more : ι → Bool}
    (weaker : ∀ item, less item = true → more item = true) (input : List ι) :
    (input.dropWhile less).dropWhile more = input.dropWhile more := by
  induction input with
  | nil => rfl
  | cons item input ih =>
      cases verdict : less item with
      | true =>
          rw [List.dropWhile_cons_of_pos verdict, List.dropWhile_cons_of_pos (weaker item verdict),
            ih]
      | false =>
          rw [List.dropWhile_cons_of_neg (by rw [verdict]; exact Bool.false_ne_true)]

/-- What is dropped satisfies the test. -/
theorem dropWhile_split (test : ι → Bool) (input : List ι) :
    ∃ skipped, input = skipped ++ input.dropWhile test ∧ ∀ item ∈ skipped, test item = true :=
  ⟨input.takeWhile test, List.takeWhile_append_dropWhile.symm,
    fun _ mem => List.mem_takeWhile_imp mem⟩

theorem skipWhile_took {test : ι → Bool} {input rest : List ι}
    (returned : skipWhile test input = .ok () rest) :
    ∃ skipped, input = skipped ++ rest ∧ ∀ item ∈ skipped, test item = true := by
  rw [skipWhile_eq] at returned
  split at returned
  · cases returned
  · cases returned
    exact dropWhile_split test input

/-! ## Programs that only read -/

/-- A program that only reads leaves a rest of its input. -/
def Reads (program : Prog (List ι) α) : Prop :=
  ∀ ⦃input rest : List ι⦄ ⦃value : α⦄, program input = .ok value rest → rest <:+ input

theorem reads_pure (value : α) : Reads (pure value : Prog (List ι) α) := by
  intro input rest result returned
  cases returned
  exact List.suffix_refl _

theorem reads_throw (stop : Stop) : Reads (throw stop : Prog (List ι) α) := by
  intro input rest result returned
  cases returned

theorem reads_assertThat (holds : Bool) (message : String) :
    Reads (Prog.assertThat holds message : Prog (List ι) Unit) := by
  cases holds with
  | true => exact reads_pure ()
  | false => exact reads_throw _

theorem reads_next : Reads (next : Prog (List ι) ι) := by
  intro input rest value returned
  cases input with
  | nil => cases returned
  | cons item input =>
      cases returned
      exact List.suffix_cons _ _

theorem reads_front : Reads (front : Prog (List ι) ι) := by
  intro input rest value returned
  cases input with
  | nil => cases returned
  | cons item input =>
      cases returned
      exact List.suffix_refl _

theorem Reads.bind {program : Prog (List ι) α} {after : α → Prog (List ι) β}
    (first : Reads program) (second : ∀ value, Reads (after value)) :
    Reads (program >>= after) := by
  intro input rest result returned
  obtain ⟨value, middle, ran, ranAfter⟩ := Prog.ok_of_bind_ok returned
  exact (second value ranAfter).trans (first ran)

theorem Reads.ite {holds : Prop} [Decidable holds] {left right : Prog (List ι) α}
    (yes : Reads left) (no : Reads right) : Reads (if holds then left else right) := by
  by_cases verdict : holds
  · rw [if_pos verdict]
    exact yes
  · rw [if_neg verdict]
    exact no

theorem reads_skipWhile (test : ι → Bool) : Reads (skipWhile test : Prog (List ι) Unit) := by
  intro input rest value returned
  rw [skipWhile_eq] at returned
  split at returned
  · cases returned
  · cases returned
    exact List.dropWhile_suffix test

end Cs140e.Library.Input
