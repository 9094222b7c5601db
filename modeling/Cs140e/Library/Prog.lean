import Mathlib.Data.List.Basic

/-!
# Programs that read and write a state and may stop

A C function is a `Prog`: from a state it either returns a value and a new
state or stops.  It stops by a panic, by waiting for input that never comes,
or by a step the language leaves undefined; a loop that is given too little
fuel stops as well.  The state at the stop is kept.
-/

namespace Cs140e.Library

/-- Why a program did not return. -/
inductive Stop where
  | panic (message : String)
  | blocked
  | undefined (what : String)
  | outOfFuel
  deriving DecidableEq, Repr

abbrev Prog (σ α : Type) := EStateM Stop σ α

abbrev Outcome (σ α : Type) := EStateM.Result Stop σ α

/-- The value a program returned. -/
def returned? {σ α : Type} : Outcome σ α → Option α
  | .ok value _ => some value
  | .error _ _ => none

/-- Why a program stopped. -/
def stopped? {σ α : Type} : Outcome σ α → Option Stop
  | .ok _ _ => none
  | .error stop _ => some stop

/-- The state that a program left, returned or stopped. -/
def left {σ α : Type} : Outcome σ α → σ
  | .ok _ state => state
  | .error _ state => state

/-- The program changes nothing. -/
def Keeps {σ α : Type} (program : Prog σ α) : Prop := ∀ state, left (program state) = state

namespace Prog

variable {σ τ α β : Type}

/-- The `assert` of the C library. -/
def assertThat (holds : Bool) (message : String) : Prog σ Unit :=
  if holds then pure () else throw (.panic message)

/-- Run a program on one component of a larger state. -/
def onPart (view : σ → τ) (update : τ → σ → σ) (program : Prog τ α) : Prog σ α :=
  fun state =>
    match program (view state) with
    | .ok value part => .ok value (update part state)
    | .error stop part => .error stop (update part state)

/-- Repeat the body until it yields a value, at most `fuel` times. -/
def repeatUntil (body : Prog σ (Option α)) : Nat → Prog σ α
  | 0 => throw .outOfFuel
  | fuel + 1 => do
      match ← body with
      | some value => pure value
      | none => repeatUntil body fuel

/-- `while (test) body`. -/
def whileLoop (test : Prog σ Bool) (body : Prog σ Unit) (fuel : Nat) : Prog σ Unit :=
  repeatUntil (do
    if ← test then
      body
      pure none
    else
      pure (some ())) fuel

@[simp]
theorem pure_apply (value : α) (state : σ) :
    (pure value : Prog σ α) state = .ok value state := rfl

@[simp]
theorem throw_apply (stop : Stop) (state : σ) :
    (throw stop : Prog σ α) state = .error stop state := rfl

@[simp]
theorem get_apply (state : σ) : (get : Prog σ σ) state = .ok state state := rfl

@[simp]
theorem set_apply (state next : σ) : (set next : Prog σ PUnit) state = .ok ⟨⟩ next := rfl

@[simp]
theorem modify_apply (change : σ → σ) (state : σ) :
    (modify change : Prog σ PUnit) state = .ok ⟨⟩ (change state) := rfl

theorem bind_of_ok {program : Prog σ α} {next : α → Prog σ β} {state after : σ} {value : α}
    (returned : program state = .ok value after) :
    (program >>= next) state = next value after := by
  change EStateM.bind program next state = next value after
  simp only [EStateM.bind, returned]

theorem bind_of_error {program : Prog σ α} {next : α → Prog σ β} {state after : σ} {stop : Stop}
    (stopped : program state = .error stop after) :
    (program >>= next) state = .error stop after := by
  change EStateM.bind program next state = .error stop after
  simp only [EStateM.bind, stopped]

/-- Only what the first part does from this state matters. -/
theorem bind_congr {first second : Prog σ α} {next : α → Prog σ β} {state : σ}
    (same : first state = second state) : (first >>= next) state = (second >>= next) state := by
  change EStateM.bind first next state = EStateM.bind second next state
  simp only [EStateM.bind, same]

/-- A sequence that returned is a first part that returned and a rest that did. -/
theorem ok_of_bind_ok {program : Prog σ α} {next : α → Prog σ β} {state after : σ} {value : β}
    (returned : (program >>= next) state = .ok value after) :
    ∃ first middle, program state = .ok first middle ∧ next first middle = .ok value after := by
  cases run : program state with
  | ok first middle =>
      rw [bind_of_ok run] at returned
      exact ⟨first, middle, rfl, returned⟩
  | error stop middle =>
      rw [bind_of_error run] at returned
      cases returned

@[simp]
theorem assertThat_true (message : String) (state : σ) :
    (assertThat true message : Prog σ Unit) state = .ok () state := rfl

@[simp]
theorem assertThat_false (message : String) (state : σ) :
    (assertThat false message : Prog σ Unit) state = .error (.panic message) state := rfl

theorem assertThat_of {holds : Bool} (message : String) (state : σ) (yes : holds = true) :
    (assertThat holds message : Prog σ Unit) state = .ok () state := by
  rw [yes, assertThat_true]

/-- An assertion that returned held, and changed nothing. -/
theorem holds_of_assertThat_ok {holds : Bool} {message : String} {state after : σ}
    (returned : (assertThat holds message : Prog σ Unit) state = .ok () after) :
    holds = true ∧ after = state := by
  cases holds with
  | true => exact ⟨rfl, by cases returned; rfl⟩
  | false => cases returned

theorem onPart_of_ok {view : σ → τ} {update : τ → σ → σ} {program : Prog τ α} {state : σ}
    {value : α} {part : τ} (returned : program (view state) = .ok value part) :
    onPart view update program state = .ok value (update part state) := by
  rw [onPart, returned]

theorem onPart_of_error {view : σ → τ} {update : τ → σ → σ} {program : Prog τ α} {state : σ}
    {stop : Stop} {part : τ} (stopped : program (view state) = .error stop part) :
    onPart view update program state = .error stop (update part state) := by
  rw [onPart, stopped]

/-- What a program leaves when only its first part changes anything. -/
theorem left_bind {program : Prog σ α} {next : α → Prog σ β}
    (keeps : ∀ value, Keeps (next value)) (state : σ) :
    left ((program >>= next) state) = left (program state) := by
  cases ran : program state with
  | ok value middle =>
      rw [bind_of_ok ran]
      exact keeps value middle
  | error stop middle =>
      rw [bind_of_error ran]
      rfl

@[simp]
theorem repeatUntil_zero (body : Prog σ (Option α)) (state : σ) :
    repeatUntil body 0 state = .error .outOfFuel state := rfl

theorem repeatUntil_of_some {body : Prog σ (Option α)} {state after : σ} {value : α} (fuel : Nat)
    (done : body state = .ok (some value) after) :
    repeatUntil body (fuel + 1) state = .ok value after := by
  rw [repeatUntil, bind_of_ok done]
  rfl

theorem repeatUntil_of_none {body : Prog σ (Option α)} {state after : σ} (fuel : Nat)
    (again : body state = .ok none after) :
    repeatUntil body (fuel + 1) state = repeatUntil body fuel after := by
  rw [repeatUntil, bind_of_ok again]

theorem repeatUntil_of_error {body : Prog σ (Option α)} {state after : σ} {stop : Stop} (fuel : Nat)
    (stopped : body state = .error stop after) :
    repeatUntil body (fuel + 1) state = .error stop after := by
  rw [repeatUntil, bind_of_error stopped]

theorem whileLoop_of_true {test : Prog σ Bool} {body : Prog σ Unit} {state middle after : σ}
    (fuel : Nat) (yes : test state = .ok true middle) (ran : body middle = .ok () after) :
    whileLoop test body (fuel + 1) state = whileLoop test body fuel after := by
  refine repeatUntil_of_none fuel ?_
  rw [bind_of_ok yes, if_pos rfl, bind_of_ok ran]
  rfl

theorem whileLoop_of_false {test : Prog σ Bool} {body : Prog σ Unit} {state after : σ}
    (fuel : Nat) (no : test state = .ok false after) :
    whileLoop test body (fuel + 1) state = .ok () after := by
  refine repeatUntil_of_some fuel ?_
  rw [bind_of_ok no, if_neg Bool.false_ne_true]
  rfl

theorem whileLoop_of_error {test : Prog σ Bool} {body : Prog σ Unit} {state after : σ}
    {stop : Stop} (fuel : Nat) (stopped : test state = .error stop after) :
    whileLoop test body (fuel + 1) state = .error stop after :=
  repeatUntil_of_error fuel (bind_of_error stopped)

theorem whileLoop_of_body_error {test : Prog σ Bool} {body : Prog σ Unit}
    {state middle after : σ} {stop : Stop} (fuel : Nat) (yes : test state = .ok true middle)
    (stopped : body middle = .error stop after) :
    whileLoop test body (fuel + 1) state = .error stop after := by
  refine repeatUntil_of_error fuel ?_
  rw [bind_of_ok yes, if_pos rfl, bind_of_error stopped]

end Prog

namespace Keeps

variable {σ α β : Type}

theorem pure (value : α) : Keeps (Pure.pure value : Prog σ α) := fun _ => rfl

theorem throw (stop : Stop) : Keeps (MonadExcept.throw stop : Prog σ α) := fun _ => rfl

theorem bind {program : Prog σ α} {next : α → Prog σ β} (first : Keeps program)
    (rest : ∀ value, Keeps (next value)) : Keeps (program >>= next) := fun state =>
  (Prog.left_bind rest state).trans (first state)

theorem ite {holds : Prop} [Decidable holds] {yes no : Prog σ α} (left : Keeps yes)
    (right : Keeps no) : Keeps (if holds then yes else no) := by
  split
  · exact left
  · exact right

end Keeps

end Cs140e.Library
