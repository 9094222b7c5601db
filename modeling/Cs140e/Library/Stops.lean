import Cs140e.Library.Input

/-!
# Which stops of a program are possible

A program whose stops are all allowed, and a rule for each way of composing
programs.
-/

namespace Cs140e.Library

variable {σ ι α β : Type}

/-- Every stop of the program is allowed. -/
def StopsOnly (allowed : Stop → Prop) (program : Prog σ α) : Prop :=
  ∀ ⦃state after stop⦄, program state = .error stop after → allowed stop

namespace StopsOnly

variable {allowed : Stop → Prop}

theorem of_returns {program : Prog σ α}
    (returns : ∀ state, ∃ value after, program state = .ok value after) :
    StopsOnly allowed program := by
  intro state after stop stopped
  obtain ⟨value, last, returned⟩ := returns state
  rw [returned] at stopped
  cases stopped

theorem pure (value : α) : StopsOnly allowed (Pure.pure value : Prog σ α) :=
  of_returns fun state => ⟨value, state, rfl⟩

theorem get : StopsOnly allowed (MonadState.get : Prog σ σ) :=
  of_returns fun state => ⟨state, state, rfl⟩

theorem set (state : σ) : StopsOnly allowed (MonadStateOf.set state : Prog σ PUnit) :=
  of_returns fun _ => ⟨⟨⟩, state, rfl⟩

theorem throw {stop : Stop} (holds : allowed stop) :
    StopsOnly allowed (MonadExcept.throw stop : Prog σ α) := by
  intro state after other stopped
  cases stopped
  exact holds

theorem assertThat (holds : Bool) {message : String} (panic : allowed (.panic message)) :
    StopsOnly allowed (Prog.assertThat holds message : Prog σ Unit) := by
  cases holds with
  | true => exact .pure ()
  | false => exact .throw panic

/-- The rest may use what the first part returned. -/
theorem bind {program : Prog σ α} {next : α → Prog σ β} (first : StopsOnly allowed program)
    (rest : ∀ state value after, program state = .ok value after →
      StopsOnly allowed (next value)) :
    StopsOnly allowed (program >>= next) := by
  intro state after stop stopped
  cases ran : program state with
  | error early last =>
      rw [Prog.bind_of_error ran] at stopped
      cases stopped
      exact first ran
  | ok value middle =>
      rw [Prog.bind_of_ok ran] at stopped
      exact rest state value middle ran stopped

theorem ite {holds : Prop} [Decidable holds] {yes no : Prog σ α}
    (left : StopsOnly allowed yes) (right : StopsOnly allowed no) :
    StopsOnly allowed (if holds then yes else no) := by
  split
  · exact left
  · exact right

theorem next (blocked : allowed .blocked) : StopsOnly allowed (Input.next : Prog (List ι) ι) := by
  intro state after stop stopped
  cases state with
  | nil => cases stopped; exact blocked
  | cons item rest => cases stopped

theorem front (blocked : allowed .blocked) :
    StopsOnly allowed (Input.front : Prog (List ι) ι) := by
  intro state after stop stopped
  cases state with
  | nil => cases stopped; exact blocked
  | cons item rest => cases stopped

theorem skipWhile (test : ι → Bool) (blocked : allowed .blocked) :
    StopsOnly allowed (Input.skipWhile test) := by
  intro state after stop stopped
  rw [Input.skipWhile_eq] at stopped
  split at stopped
  · cases stopped; exact blocked
  · cases stopped

end StopsOnly

end Cs140e.Library
