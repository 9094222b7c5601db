import Cs140e.Library.Prog

/-!
# Programs that take a piece of their input

What a program that returned has consumed, as the sequence of the pieces its
parts have consumed.  The input is a component of the state; a relation says
what else may have changed.
-/

namespace Cs140e.Library

variable {σ ι α β : Type}

/-- The input in a state. -/
structure InputView (σ ι : Type) where
  inv : σ → Prop
  unread : σ → List ι
  frame : σ → σ → Prop
  frame_refl : ∀ state, frame state state
  frame_trans : ∀ {first second third}, frame first second → frame second third →
    frame first third

/-- A run that took this piece from the front of the input. -/
structure InputView.Took (view : InputView σ ι) (piece : List ι) (state after : σ) : Prop where
  kept : view.inv after
  same : view.frame state after
  split : view.unread state = piece ++ view.unread after

namespace InputView.Took

variable {view : InputView σ ι}

theorem refl {state : σ} (kept : view.inv state) : view.Took [] state state :=
  ⟨kept, view.frame_refl state, rfl⟩

theorem trans {first second : List ι} {state middle after : σ}
    (left : view.Took first state middle) (right : view.Took second middle after) :
    view.Took (first ++ second) state after where
  kept := right.kept
  same := view.frame_trans left.same right.same
  split := by rw [left.split, right.split, List.append_assoc]

end InputView.Took

/-- If the program returns, the value tells which piece it took. -/
def Takes (view : InputView σ ι) (program : Prog σ α) (piece : α → List ι → Prop) : Prop :=
  ∀ ⦃state after : σ⦄ ⦃value : α⦄, view.inv state → program state = .ok value after →
    ∃ taken, view.Took taken state after ∧ piece value taken

namespace Takes

variable {view : InputView σ ι}

theorem pure {piece : α → List ι → Prop} {value : α} (holds : piece value []) :
    Takes view (pure value) piece := by
  intro state after result kept returned
  cases returned
  exact ⟨[], .refl kept, holds⟩

theorem throw {piece : α → List ι → Prop} (stop : Stop) : Takes view (throw stop) piece := by
  intro state after result kept returned
  cases returned

/-- Looking at the state takes nothing. -/
theorem get (piece : σ → List ι → Prop) (holds : ∀ state, piece state []) :
    Takes view (MonadState.get : Prog σ σ) piece := by
  intro state after value kept returned
  cases returned
  exact ⟨[], .refl kept, holds _⟩

theorem mono {piece weaker : α → List ι → Prop} {program : Prog σ α}
    (takes : Takes view program piece)
    (weaken : ∀ value taken, piece value taken → weaker value taken) :
    Takes view program weaker := by
  intro state after value kept returned
  obtain ⟨taken, took, holds⟩ := takes kept returned
  exact ⟨taken, took, weaken value taken holds⟩

/-- The second part may use what the first one took. -/
theorem bind {first : α → List ι → Prop} {second : β → List ι → Prop} {program : Prog σ α}
    {next : α → Prog σ β} (takes : Takes view program first)
    (rest : ∀ value taken, first value taken →
      Takes view (next value) fun result more => second result (taken ++ more)) :
    Takes view (program >>= next) second := by
  intro state after result kept returned
  obtain ⟨value, middle, ran, ranNext⟩ := Prog.ok_of_bind_ok returned
  obtain ⟨taken, took, holds⟩ := takes kept ran
  obtain ⟨more, tookMore, holdsMore⟩ := rest value taken holds took.kept ranNext
  exact ⟨taken ++ more, took.trans tookMore, holdsMore⟩

theorem ite {holds : Prop} [Decidable holds] {left right : Prog σ α} {piece : α → List ι → Prop}
    (yes : holds → Takes view left piece) (no : ¬ holds → Takes view right piece) :
    Takes view (if holds then left else right) piece := by
  by_cases verdict : holds
  · rw [if_pos verdict]
    exact yes verdict
  · rw [if_neg verdict]
    exact no verdict

/-- A piece behind anything else. -/
def Behind (piece : List ι → Prop) (taken : List ι) : Prop :=
  ∃ before last, taken = before ++ last ∧ piece last

theorem Behind.of {piece : List ι → Prop} {taken : List ι} (holds : piece taken) :
    Behind piece taken :=
  ⟨[], taken, rfl, holds⟩

theorem Behind.after {piece : List ι → Prop} {taken : List ι} (behind : Behind piece taken)
    (first : List ι) : Behind piece (first ++ taken) := by
  obtain ⟨before, last, rfl, holds⟩ := behind
  exact ⟨first ++ before, last, (List.append_assoc first before last).symm, holds⟩

/-- A loop takes what its last round takes, behind what the others take. -/
theorem repeatUntil {body : Prog σ (Option α)} (piece : α → List ι → Prop)
    (round : Takes view body fun result taken =>
      ∀ value, result = some value → Behind (piece value) taken) (fuel : Nat) :
    Takes view (Prog.repeatUntil body fuel) fun value taken => Behind (piece value) taken := by
  induction fuel with
  | zero => exact Takes.throw .outOfFuel
  | succ fuel ih =>
      refine round.bind fun result taken holds => ?_
      cases result with
      | some value =>
          refine Takes.pure ?_
          rw [List.append_nil]
          exact holds value rfl
      | none => exact ih.mono fun value more behind => behind.after taken

end Takes

end Cs140e.Library
