import Cs140e.Library.Prog

/-!
# Agreement of two programs, step by step and over whole runs

Two programs agree when they return the same value from related states, into
related states, or stop for the same reason.  A run is a list of operations
executed by `List.mapM`; agreement of the steps gives agreement of the runs.
-/

namespace Cs140e.Library

variable {σ τ α β Op Ret : Type}

/-- Both outcomes return one value into states that are related for it, or
both stop alike. -/
inductive AgreeOn (related : α → σ → τ → Prop) : Outcome σ α → Outcome τ α → Prop where
  | returned (value : α) {left : σ} {right : τ} (relates : related value left right) :
      AgreeOn related (.ok value left) (.ok value right)
  | stopped (stop : Stop) (left : σ) (right : τ) :
      AgreeOn related (.error stop left) (.error stop right)

/-- Agreement with one relation for all values. -/
abbrev Agree (related : σ → τ → Prop) : Outcome σ α → Outcome τ α → Prop :=
  AgreeOn fun _ => related

namespace AgreeOn

variable {related : α → σ → τ → Prop}

theorem bind {relatedAfter : β → σ → τ → Prop} {first : Prog σ α} {second : Prog τ α}
    {next : α → Prog σ β} {after : α → Prog τ β} {left : σ} {right : τ}
    (start : AgreeOn related (first left) (second right))
    (rest : ∀ value nextLeft nextRight, related value nextLeft nextRight →
      AgreeOn relatedAfter (next value nextLeft) (after value nextRight)) :
    AgreeOn relatedAfter ((first >>= next) left) ((second >>= after) right) := by
  generalize leftEq : first left = leftOutcome at start
  generalize rightEq : second right = rightOutcome at start
  cases start with
  | returned value relates =>
      rw [Prog.bind_of_ok leftEq, Prog.bind_of_ok rightEq]
      exact rest value _ _ relates
  | stopped stop leftState rightState =>
      rw [Prog.bind_of_error leftEq, Prog.bind_of_error rightEq]
      exact .stopped stop leftState rightState

theorem mono {weaker : α → σ → τ → Prop} {first : Outcome σ α} {second : Outcome τ α}
    (agree : AgreeOn related first second)
    (weaken : ∀ value left right, related value left right → weaker value left right) :
    AgreeOn weaker first second := by
  cases agree with
  | returned value relates => exact .returned value (weaken _ _ _ relates)
  | stopped stop left right => exact .stopped stop left right

/-- Agreement along a program in the middle. -/
theorem trans {ρ : Type} {relatedAfter : α → τ → ρ → Prop} {first : Outcome σ α}
    {second : Outcome τ α} {third : Outcome ρ α} (left : AgreeOn related first second)
    (right : AgreeOn relatedAfter second third) :
    AgreeOn (fun value start last => ∃ middle, related value start middle ∧
      relatedAfter value middle last) first third := by
  cases left with
  | returned value relates =>
      cases right with
      | returned _ relatesAfter => exact .returned value ⟨_, relates, relatesAfter⟩
  | stopped stop first second =>
      cases right with
      | stopped _ _ third => exact .stopped stop first third

/-- Two programs that agree with a third one agree. -/
theorem join {ρ : Type} {relatedAfter : α → ρ → τ → Prop} {ideal : Outcome ρ α}
    {relatedIdeal : α → ρ → σ → Prop} {first : Outcome σ α} {second : Outcome τ α}
    (left : AgreeOn relatedIdeal ideal first) (right : AgreeOn relatedAfter ideal second) :
    AgreeOn (fun value start last => ∃ middle, relatedIdeal value middle start ∧
      relatedAfter value middle last) first second := by
  cases left with
  | returned value relates =>
      cases right with
      | returned _ relatesAfter => exact .returned value ⟨_, relates, relatesAfter⟩
  | stopped stop middle first =>
      cases right with
      | stopped _ _ second => exact .stopped stop first second

/-- The relation may use what the left program returned. -/
theorem with_left {first : Outcome σ α} {second : Outcome τ α}
    (agree : AgreeOn related first second) :
    AgreeOn (fun value left right => related value left right ∧ first = .ok value left) first
      second := by
  cases agree with
  | returned value relates => exact .returned value ⟨relates, rfl⟩
  | stopped stop left right => exact .stopped stop left right

/-- What the left program returned, the right one returned as well. -/
theorem right_of_ok {value : α} {left : σ} {outcome : Outcome τ α}
    (agree : AgreeOn related (.ok value left) outcome) :
    ∃ right, outcome = .ok value right ∧ related value left right := by
  cases agree with
  | returned _ relates => exact ⟨_, rfl, relates⟩

theorem left_of_ok {value : α} {right : τ} {outcome : Outcome σ α}
    (agree : AgreeOn related outcome (.ok value right)) :
    ∃ left, outcome = .ok value left ∧ related value left right := by
  cases agree with
  | returned _ relates => exact ⟨_, rfl, relates⟩

theorem right_of_error {stop : Stop} {left : σ} {outcome : Outcome τ α}
    (agree : AgreeOn related (.error stop left) outcome) :
    ∃ right, outcome = .error stop right := by
  cases agree with
  | stopped _ _ right => exact ⟨right, rfl⟩

end AgreeOn

/-- Every operation of the run meets the condition in the state it starts from. -/
def Along (step : Op → Prog σ Ret) (meets : Op → σ → Prop) : List Op → σ → Prop
  | [], _ => True
  | op :: ops, state =>
      meets op state ∧ ∀ reply after, step op state = .ok reply after → Along step meets ops after

theorem Along.cons {step : Op → Prog σ Ret} {meets : Op → σ → Prop} {op : Op} {ops : List Op}
    {state after : σ} {reply : Ret} (met : meets op state) (ran : step op state = .ok reply after)
    (rest : Along step meets ops after) : Along step meets (op :: ops) state := by
  refine ⟨met, fun reply' after' ran' => ?_⟩
  rw [ran] at ran'
  cases ran'
  exact rest

/-- A condition that always holds is met along every run. -/
theorem Along.of_forall {step : Op → Prog σ Ret} {meets : Op → σ → Prop}
    (always : ∀ op state, meets op state) (ops : List Op) (state : σ) :
    Along step meets ops state := by
  induction ops generalizing state with
  | nil => trivial
  | cons op ops ih => exact ⟨always op state, fun _ after _ => ih after⟩

/-- If every step that meets the condition agrees, so does every run along
which the condition is met. -/
theorem mapM_agree {related : σ → τ → Prop} {left : Op → Prog σ Ret} {right : Op → Prog τ Ret}
    {meets : Op → τ → Prop}
    (step : ∀ op first second, related first second → meets op second →
      Agree related (left op first) (right op second)) :
    ∀ (ops : List Op) (first : σ) (second : τ), related first second →
      Along right meets ops second →
      Agree related (ops.mapM left first) (ops.mapM right second) := by
  intro ops
  induction ops with
  | nil => exact fun first second relates _ => .returned [] relates
  | cons op ops ih =>
      intro first second relates met
      rw [List.mapM_cons, List.mapM_cons]
      have head := step op first second relates met.1
      generalize leftEq : left op first = leftOutcome at head
      generalize rightEq : right op second = rightOutcome at head
      cases head with
      | returned reply nextRelates =>
          rw [Prog.bind_of_ok leftEq, Prog.bind_of_ok rightEq]
          exact AgreeOn.bind (ih _ _ nextRelates (met.2 _ _ rightEq))
            (fun replies _ _ lastRelates => .returned (reply :: replies) lastRelates)
      | stopped stop leftState rightState =>
          rw [Prog.bind_of_error leftEq, Prog.bind_of_error rightEq]
          exact .stopped stop leftState rightState

/-- If every step agrees, so does every run. -/
theorem mapM_agree_always {related : σ → τ → Prop} {left : Op → Prog σ Ret}
    {right : Op → Prog τ Ret}
    (step : ∀ op first second, related first second →
      Agree related (left op first) (right op second))
    (ops : List Op) {first : σ} {second : τ} (relates : related first second) :
    Agree related (ops.mapM left first) (ops.mapM right second) :=
  mapM_agree (fun op first second relates (_ : True) => step op first second relates)
    ops first second relates (Along.of_forall (fun _ _ => trivial) ops second)

/-- If every step that meets the condition keeps an invariant and stops only
for allowed reasons, a run along which the condition is met stops only for
these reasons. -/
theorem mapM_stops {step : Op → Prog σ Ret} {meets : Op → σ → Prop} (inv : σ → Prop)
    {allowed : Stop → Prop}
    (keeps : ∀ op state reply after, inv state → meets op state →
      step op state = .ok reply after → inv after)
    (stops : ∀ op state stop after, inv state → meets op state →
      step op state = .error stop after → allowed stop) :
    ∀ (ops : List Op) (state : σ), inv state → Along step meets ops state →
      ∀ stop after, ops.mapM step state = .error stop after → allowed stop := by
  intro ops
  induction ops with
  | nil =>
      intro state _ _ stop after stopped
      cases stopped
  | cons op ops ih =>
      intro state kept met stop after stopped
      rw [List.mapM_cons] at stopped
      cases ran : step op state with
      | error first middle =>
          rw [Prog.bind_of_error ran] at stopped
          cases stopped
          exact stops op state stop _ kept met.1 ran
      | ok reply middle =>
          rw [Prog.bind_of_ok ran] at stopped
          cases rest : ops.mapM step middle with
          | error later last =>
              rw [Prog.bind_of_error rest] at stopped
              cases stopped
              exact ih middle (keeps op state reply middle kept met.1 ran) (met.2 _ _ ran) stop _
                rest
          | ok replies last =>
              rw [Prog.bind_of_ok rest] at stopped
              cases stopped

/-- An invariant that every step keeps when it returns holds when a run has returned. -/
theorem mapM_keeps {step : Op → Prog σ Ret} (inv : σ → Prop)
    (keeps : ∀ op state reply after, inv state → step op state = .ok reply after → inv after) :
    ∀ (ops : List Op) (state : σ), inv state →
      ∀ replies after, ops.mapM step state = .ok replies after → inv after := by
  intro ops
  induction ops with
  | nil =>
      intro state start replies after run
      cases run
      exact start
  | cons op ops ih =>
      intro state start replies after run
      rw [List.mapM_cons] at run
      obtain ⟨reply, middle, first, rest⟩ := Prog.ok_of_bind_ok run
      obtain ⟨more, last, others, returned⟩ := Prog.ok_of_bind_ok rest
      cases returned
      exact ih middle (keeps op state reply middle start first) more _ others

/-- An invariant that every enabled step keeps holds at the end of every run. -/
theorem foldlM_keeps {Action : Type} {step : σ → Action → Option σ} (inv : σ → Prop)
    (keeps : ∀ state action after, inv state → step state action = some after → inv after) :
    ∀ (actions : List Action) (state after : σ), inv state →
      actions.foldlM step state = some after → inv after := by
  intro actions
  induction actions with
  | nil =>
      intro state after start run
      cases run
      exact start
  | cons action actions ih =>
      intro state after start run
      rw [List.foldlM_cons] at run
      obtain ⟨middle, first, rest⟩ := Option.bind_eq_some_iff.mp run
      exact ih middle after (keeps state action middle start first) rest

/-- If some step keeps the invariant and brings the goal closer as long as it is not reached,
a run reaches it. -/
theorem exists_run_of_measure {Action : Type} {step : σ → Action → Option σ}
    (inv goal : σ → Prop) (measure : σ → Nat)
    (progress : ∀ state, inv state → ¬ goal state →
      ∃ action after, step state action = some after ∧ inv after ∧
        measure after < measure state) (state : σ) (start : inv state) :
    ∃ (actions : List Action) (after : σ), actions.foldlM step state = some after ∧ inv after ∧
      goal after := by
  induction left : measure state using Nat.strongRecOn generalizing state with
  | ind n ih =>
      by_cases done : goal state
      · exact ⟨[], state, rfl, start, done⟩
      · obtain ⟨action, middle, stepped, kept, closer⟩ := progress state start done
        obtain ⟨actions, after, ran, last, reached⟩ := ih _ (left ▸ closer) middle kept rfl
        refine ⟨action :: actions, after, ?_, last, reached⟩
        rw [List.foldlM_cons, stepped]
        exact ran

end Cs140e.Library
