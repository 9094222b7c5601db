import Cs140e.Library.Prog

/-!
# Loops with a counter

`for(i = 0; i < n; i++) body` as a program, and the rule by which a family of
states describes all of its rounds.
-/

namespace Cs140e.Library.Prog

variable {σ : Type}

/-- The rounds that are left, from round `i` on. -/
def forRounds (body : Nat → Prog σ Unit) : Nat → Nat → Prog σ Unit
  | 0, _ => pure ()
  | left + 1, i => do
      body i
      forRounds body left (i + 1)

/-- `for(i = 0; i < n; i++) body`. -/
def forLoop (n : Nat) (body : Nat → Prog σ Unit) : Prog σ Unit := forRounds body n 0

theorem forRounds_of_steps {body : Nat → Prog σ Unit} {states : Nat → σ} {n : Nat}
    (step : ∀ i < n, body i (states i) = .ok () (states (i + 1))) (left i : Nat)
    (rounds : i + left = n) : forRounds body left i (states i) = .ok () (states n) := by
  induction left generalizing i with
  | zero =>
      subst rounds
      rfl
  | succ left ih =>
      rw [forRounds, bind_of_ok (step i (by omega))]
      exact ih (i + 1) (by omega)

/-- A loop whose rounds lead from each state of the family to the next. -/
theorem forLoop_of_steps {body : Nat → Prog σ Unit} {states : Nat → σ} {n : Nat}
    (step : ∀ i < n, body i (states i) = .ok () (states (i + 1))) :
    forLoop n body (states 0) = .ok () (states n) :=
  forRounds_of_steps step n 0 (Nat.zero_add n)

end Cs140e.Library.Prog
