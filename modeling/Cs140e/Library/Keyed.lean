import Mathlib.Data.List.Basic
import Mathlib.Logic.Function.Basic

/-!
# Stores that keep the first value of every key

A value is stored under its key unless something is there already.
-/

namespace Cs140e.Library.Keyed

variable {α κ : Type} [DecidableEq κ]

/-- Store a value unless its key is taken. -/
def keep (key : α → κ) (value : α) (store : κ → Option α) : κ → Option α :=
  if (store (key value)).isSome then store
  else Function.update store (key value) (some value)

/-- Store the values of a list in turn. -/
def keepAll (key : α → κ) (values : List α) (store : κ → Option α) : κ → Option α :=
  values.foldl (fun store value => keep key value store) store

theorem keep_apply (key : α → κ) (value : α) (store : κ → Option α) (k : κ) :
    keep key value store k = (store k).or (if key value = k then some value else none) := by
  unfold keep
  by_cases here : key value = k
  · subst here
    rw [if_pos rfl]
    cases old : store (key value) with
    | none => simp
    | some kept => simpa using old
  · rw [if_neg here, Option.or_none]
    split
    · rfl
    · exact Function.update_of_ne (Ne.symm here) _ _

/-- What was there stays, and else the first value with the key is there. -/
theorem keepAll_apply (key : α → κ) (values : List α) (store : κ → Option α) (k : κ) :
    keepAll key values store k = (store k).or (values.find? fun value => key value = k) := by
  induction values generalizing store with
  | nil => exact Option.or_none.symm
  | cons value values ih =>
      have step : keepAll key (value :: values) store =
          keepAll key values (keep key value store) := rfl
      rw [step, ih, keep_apply, Option.or_assoc, List.find?_cons]
      by_cases here : key value = k
      · simp [here]
      · simp [here]

end Cs140e.Library.Keyed
