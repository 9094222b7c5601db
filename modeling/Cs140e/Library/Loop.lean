import Cs140e.Library.Simulation

/-!
# Loops without fuel, and loops that stutter

`Loops` is the result of repeating a body until it yields a value.  A loop
refines another one when each of its rounds either does a round of the other or
only brings it closer to doing one.
-/

namespace Cs140e.Library

variable {σ τ α : Type}

/-- The outcome of repeating the body from a state. -/
inductive Loops (body : Prog σ (Option α)) : σ → Outcome σ α → Prop where
  | stops {state after : σ} {stop : Stop} (ran : body state = .error stop after) :
      Loops body state (.error stop after)
  | ends {state after : σ} {value : α} (ran : body state = .ok (some value) after) :
      Loops body state (.ok value after)
  | goesOn {state middle : σ} {outcome : Outcome σ α} (ran : body state = .ok none middle)
      (rest : Loops body middle outcome) : Loops body state outcome

namespace Loops

variable {body : Prog σ (Option α)}

/-- A loop has at most one outcome. -/
theorem unique {state : σ} {first second : Outcome σ α} (left : Loops body state first)
    (right : Loops body state second) : first = second := by
  induction left with
  | stops ran =>
      cases right with
      | stops ran' =>
          rw [ran] at ran'
          cases ran'
          rfl
      | ends ran' => rw [ran] at ran'; cases ran'
      | goesOn ran' => rw [ran] at ran'; cases ran'
  | ends ran =>
      cases right with
      | stops ran' => rw [ran] at ran'; cases ran'
      | ends ran' =>
          rw [ran] at ran'
          cases ran'
          rfl
      | goesOn ran' => rw [ran] at ran'; cases ran'
  | goesOn ran rest ih =>
      cases right with
      | stops ran' => rw [ran] at ran'; cases ran'
      | ends ran' => rw [ran] at ran'; cases ran'
      | goesOn ran' rest' =>
          rw [ran] at ran'
          cases ran'
          exact ih rest'

/-- When every further round starts from a smaller state, more fuel than the
size of the first state is enough. -/
theorem of_repeatUntil (size : σ → Nat)
    (shrinks : ∀ state after, body state = .ok none after → size after < size state) :
    ∀ (fuel : Nat) (state : σ), size state < fuel →
      Loops body state (Prog.repeatUntil body fuel state) := by
  intro fuel
  induction fuel with
  | zero => exact fun _ small => absurd small (Nat.not_lt_zero _)
  | succ fuel ih =>
      intro state small
      cases ran : body state with
      | error stop after =>
          rw [Prog.repeatUntil_of_error fuel ran]
          exact .stops ran
      | ok result after =>
          cases result with
          | some value =>
              rw [Prog.repeatUntil_of_some fuel ran]
              exact .ends ran
          | none =>
              have smaller := shrinks state after ran
              rw [Prog.repeatUntil_of_none fuel ran]
              exact .goesOn ran (ih after (by omega))

/-- If no round lets the state grow and the last one makes it smaller, the loop does. -/
theorem shrinks (size : σ → Nat)
    (goesOn : ∀ state after, body state = .ok none after → size after ≤ size state)
    (ends : ∀ state after value, body state = .ok (some value) after → size after < size state)
    {state after : σ} {value : α} (loops : Loops body state (.ok value after)) :
    size after < size state := by
  generalize returned : (EStateM.Result.ok value after : Outcome σ α) = outcome at loops
  induction loops with
  | stops ran => cases returned
  | ends ran =>
      cases returned
      exact ends _ _ _ ran
  | goesOn ran rest ih => exact Nat.lt_of_lt_of_le (ih returned) (goesOn _ _ ran)

end Loops

/-- A value that ends the loop leads to related states, and no value leads to a
smaller state in the invariant. -/
def AfterRound (inv : σ → Prop) (size : σ → Nat) (view : σ → τ) (related : α → τ → σ → Prop)
    (state : σ) (value : Option α) (left : τ) (right : σ) : Prop :=
  match value with
  | some value => related value left right
  | none => inv right ∧ size right < size state ∧ view right = left

/-- What one round of a loop does for the loop it refines. -/
inductive RoundSimulates (inv : σ → Prop) (size : σ → Nat) (view : σ → τ)
    (related : α → τ → σ → Prop) (ideal : Prog τ (Option α)) (body : Prog σ (Option α))
    (state : σ) : Prop where
  | stutters {after : σ} (ran : body state = .ok none after) (kept : inv after)
      (smaller : size after < size state) (same : view after = view state)
  | follows (agree : AgreeOn (AfterRound inv size view related state) (ideal (view state))
      (body state))

/-- With more fuel than its measure a loop does what the loop it refines does. -/
theorem repeatUntil_simulates {inv : σ → Prop} {size : σ → Nat} {view : σ → τ}
    {related : α → τ → σ → Prop} {ideal : Prog τ (Option α)} {body : Prog σ (Option α)}
    (round : ∀ state, inv state → RoundSimulates inv size view related ideal body state) :
    ∀ (fuel : Nat) (state : σ), inv state → size state < fuel →
      ∃ outcome, Loops ideal (view state) outcome ∧
        AgreeOn related outcome (Prog.repeatUntil body fuel state) := by
  intro fuel
  induction fuel with
  | zero => exact fun _ _ small => absurd small (Nat.not_lt_zero _)
  | succ fuel ih =>
      intro state kept small
      cases round state kept with
      | stutters ran keptAfter smaller same =>
          rw [Prog.repeatUntil_of_none fuel ran, ← same]
          exact ih _ keptAfter (by omega)
      | follows agree =>
          generalize idealEq : ideal (view state) = idealOutcome at agree
          generalize bodyEq : body state = bodyOutcome at agree
          cases agree with
          | stopped stop left right =>
              rw [Prog.repeatUntil_of_error fuel bodyEq]
              exact ⟨_, .stops idealEq, .stopped stop left right⟩
          | returned value relates =>
              cases value with
              | some value =>
                  rw [Prog.repeatUntil_of_some fuel bodyEq]
                  exact ⟨_, .ends idealEq, .returned value relates⟩
              | none =>
                  obtain ⟨keptAfter, smaller, same⟩ := relates
                  obtain ⟨outcome, loops, agree⟩ := ih _ keptAfter (by omega)
                  rw [same] at loops
                  rw [Prog.repeatUntil_of_none fuel bodyEq]
                  exact ⟨outcome, .goesOn idealEq loops, agree⟩

end Cs140e.Library
