import Cs140e.Library.Prog

/-!
# Arrays that are written from the front

The cells of an array may not be set yet.  A store outside of the array and a
read of a cell that is not set are undefined.
-/

namespace Cs140e.Library

variable {σ τ α β : Type}

/-- A store behind what is done. -/
theorem set_done (done later : List α) (old new : α) :
    (done ++ old :: later).set done.length new = done ++ [new] ++ later := by
  rw [List.set_append_right _ _ (Nat.le_refl _), Nat.sub_self, List.append_assoc]
  rfl

abbrev Buffer (α : Type) := List (Option α)

namespace Buffer

def uninit (size : Nat) : Buffer α := List.replicate size none

def store (i : Nat) (value : α) : Prog (Buffer α) Unit := fun buffer =>
  if i < buffer.length then .ok () (buffer.set i (some value))
  else .error (.undefined "a store outside of the array") buffer

def fetch (buffer : Buffer α) (i : Nat) : Prog σ α :=
  match buffer[i]? with
  | some (some value) => pure value
  | some none => throw (.undefined "a cell that is not set")
  | none => throw (.undefined "a cell outside of the array")

/-- The array after the values were stored from its front on. -/
def written (old : Buffer α) (values : List α) : Buffer α :=
  values.map some ++ old.drop values.length

@[simp]
theorem written_nil (old : Buffer α) : written old [] = old := rfl

theorem written_snoc (old : Buffer α) (values : List α) (value : α) :
    written old (values ++ [value]) =
      values.map some ++ some value :: old.drop (values.length + 1) := by
  rw [written, List.map_append, List.append_assoc, List.length_append]
  rfl

theorem length_written {old : Buffer α} {values : List α} (fits : values.length ≤ old.length) :
    (written old values).length = old.length := by
  rw [written, List.length_append, List.length_map, List.length_drop]
  omega

theorem store_written {old : Buffer α} {values : List α} (room : values.length < old.length)
    (value : α) :
    store values.length value (written old values) = .ok () (written old (values ++ [value])) := by
  have inside : values.length < (written old values).length := by
    rwa [length_written (Nat.le_of_lt room)]
  have drop : old.drop values.length = old[values.length] :: old.drop (values.length + 1) :=
    List.drop_eq_getElem_cons room
  have stored := set_done (values.map some) (old.drop (values.length + 1)) old[values.length]
    (some value)
  rw [List.length_map, List.append_assoc] at stored
  rw [store, if_pos inside, written_snoc, written, drop, stored]
  rfl

theorem fetch_written {old : Buffer α} {values : List α} {i : Nat} {value : α}
    (stored : values[i]? = some value) (state : σ) :
    fetch (written old values) i state = .ok value state := by
  have inside : i < values.length := (List.getElem?_eq_some_iff.mp stored).1
  have found : (written old values)[i]? = some (some value) := by
    rw [written, List.getElem?_append_left (by rwa [List.length_map]), List.getElem?_map, stored]
    rfl
  rw [fetch, found]
  rfl

/-- An earlier store that is written over. -/
theorem written_set {old : Buffer α} {values : List α} {i : Nat} (inside : i < values.length)
    (value : α) : written (old.set i (some value)) values = written old values := by
  rw [written, written, List.drop_set_of_lt inside]

/-- The last value as a part of the array that is not written yet. -/
theorem written_snoc_eq_set {old : Buffer α} {values : List α} (room : values.length < old.length)
    (value : α) :
    written old (values ++ [value]) = written (old.set values.length (some value)) values := by
  have inside : values.length < (old.set values.length (some value)).length := by
    rwa [List.length_set]
  rw [written_snoc, written, List.drop_eq_getElem_cons inside, List.getElem_set_self,
    List.drop_set_of_lt (Nat.lt_succ_self _)]

/-- A store over the last value. -/
theorem store_over {old : Buffer α} {values : List α} (room : values.length < old.length)
    (first second : α) :
    store values.length second (written old (values ++ [first])) =
      .ok () (written old (values ++ [second])) := by
  have inside : values.length < (values ++ [second]).length := by
    rw [List.length_append]
    exact Nat.lt_succ_self _
  rw [written_snoc_eq_set room first, store_written (by rwa [List.length_set]), written_set inside]

end Buffer

/-- Run a program on a local variable. -/
def Prog.locally (start : τ) (program : Prog τ α) : Prog σ (α × τ) := fun state =>
  match program start with
  | .ok value after => .ok (value, after) state
  | .error stop _ => .error stop state

theorem Prog.locally_of_ok {start after : τ} {program : Prog τ α} {value : α}
    (ran : program start = .ok value after) (state : σ) :
    Prog.locally start program state = .ok (value, after) state := by
  rw [Prog.locally, ran]

end Cs140e.Library
