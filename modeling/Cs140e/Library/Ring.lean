import Cs140e.Library.Simulation

/-!
# Bounded queues and rings of slots

A bounded queue is a list that never grows past its capacity.  A ring of
`size` slots holds such a queue when its slots remember the last `size - 1`
items of everything ever pushed: `Window` relates the slots to that history
and to the number of items popped so far.
-/

namespace Cs140e.Library.Ring

variable {α : Type}

/-! ## The bounded queue -/

inductive Op (α : Type) where
  | push (item : α)
  | pop
  | peek
  | popN (count : Nat)
  | peekN (count : Nat)

inductive Reply (α : Type) where
  | accepted (yes : Bool)
  | item (found : Option α)
  | items (found : Option (List α))
  deriving DecidableEq, Repr

/-- The effect of one operation on a queue of at most `capacity` items. -/
def queueStep (capacity : Nat) (op : Op α) : Prog (List α) (Reply α) := fun queue =>
  match op with
  | .push item =>
      if queue.length < capacity then .ok (.accepted true) (queue ++ [item])
      else .ok (.accepted false) queue
  | .pop => .ok (.item queue.head?) queue.tail
  | .peek => .ok (.item queue.head?) queue
  | .popN count =>
      if queue.length < count then .ok (.items none) queue
      else .ok (.items (some (queue.take count))) (queue.drop count)
  | .peekN count =>
      if queue.length < count then .ok (.items none) queue
      else .ok (.items (some (queue.take count))) queue

/-- No operation on the queue stops, and none lets it grow past its capacity. -/
theorem queueStep_bounded (capacity : Nat) (op : Op α) {queue : List α}
    (bounded : queue.length ≤ capacity) :
    ∃ reply after, queueStep capacity op queue = .ok reply after ∧ after.length ≤ capacity := by
  cases op with
  | push item =>
      by_cases room : queue.length < capacity
      · refine ⟨_, _, if_pos room, ?_⟩
        rw [List.length_append, List.length_singleton]
        exact room
      · exact ⟨_, _, if_neg room, bounded⟩
  | pop =>
      refine ⟨_, _, rfl, ?_⟩
      rw [List.length_tail]
      omega
  | peek => exact ⟨_, _, rfl, bounded⟩
  | popN count =>
      by_cases few : queue.length < count
      · exact ⟨_, _, if_pos few, bounded⟩
      · refine ⟨_, _, if_neg few, ?_⟩
        rw [List.length_drop]
        omega
  | peekN count =>
      by_cases few : queue.length < count
      · exact ⟨_, _, if_pos few, bounded⟩
      · exact ⟨_, _, if_neg few, bounded⟩

theorem queue_run_bounded (capacity : Nat) (ops : List (Op α)) {queue : List α}
    (bounded : queue.length ≤ capacity) :
    ∃ replies after, ops.mapM (queueStep capacity) queue = .ok replies after ∧
      after.length ≤ capacity := by
  induction ops generalizing queue with
  | nil => exact ⟨[], queue, rfl, bounded⟩
  | cons op ops ih =>
      obtain ⟨reply, middle, first, middleBounded⟩ := queueStep_bounded capacity op bounded
      obtain ⟨replies, after, rest, afterBounded⟩ := ih middleBounded
      refine ⟨reply :: replies, after, ?_, afterBounded⟩
      rw [List.mapM_cons, Prog.bind_of_ok first, Prog.bind_of_ok rest]
      rfl

/-! ## Slots that remember the recent history -/

/-- The slots hold the queue `history.drop popped`, and the last `size - 1`
items of the history sit where they were written. -/
structure Window (size : Nat) (slot : Nat → α) (history : List α) (popped : Nat) : Prop where
  popped_le : popped ≤ history.length
  fits : history.length < popped + size
  recent : ∀ index < history.length, history.length < index + size →
    history[index]? = some (slot (index % size))

namespace Window

variable {size : Nat} {slot : Nat → α} {history : List α} {popped : Nat}

theorem size_pos (window : Window size slot history popped) : 0 < size := by
  have := window.popped_le
  have := window.fits
  omega

theorem nil (slot : Nat → α) (positive : 0 < size) : Window size slot [] 0 where
  popped_le := Nat.le_refl 0
  fits := by simpa using positive
  recent := fun index small => absurd small (Nat.not_lt_zero index)

/-- The oldest item still in the queue is in the slot of its index. -/
theorem oldest (window : Window size slot history popped) (nonempty : popped < history.length) :
    history[popped]? = some (slot (popped % size)) :=
  window.recent popped nonempty window.fits

theorem pop (window : Window size slot history popped) (nonempty : popped < history.length) :
    Window size slot history (popped + 1) where
  popped_le := nonempty
  fits := by have := window.fits; omega
  recent := window.recent

/-- Going back to an earlier position is harmless while its items are recent. -/
theorem rewind (window : Window size slot history popped) {earlier : Nat}
    (known : earlier ≤ history.length) (fits : history.length < earlier + size) :
    Window size slot history earlier where
  popped_le := known
  fits := fits
  recent := window.recent

/-- Indices less than one turn apart lie in different slots. -/
theorem mod_ne_of_lt {index other : Nat} (before : index < other) (near : other < index + size) :
    index % size ≠ other % size := by
  intro same
  have divides : size ∣ other - index :=
    Nat.dvd_of_mod_eq_zero (Nat.sub_mod_eq_zero_of_mod_eq same.symm)
  have := Nat.le_of_dvd (by omega) divides
  omega

/-- Writing the next slot touches no item that is still remembered. -/
theorem write (window : Window size slot history popped) (item : α) :
    Window size (Function.update slot (history.length % size) item) history popped where
  popped_le := window.popped_le
  fits := window.fits
  recent := fun index small near => by
    rw [window.recent index small near,
      Function.update_of_ne (mod_ne_of_lt small near)]

/-- Once the next slot is written the item can be made part of the history. -/
theorem push (window : Window size slot history popped) (room : history.length + 1 < popped + size)
    {item : α} (written : slot (history.length % size) = item) :
    Window size slot (history ++ [item]) popped where
  popped_le := by
    have := window.popped_le
    simp only [List.length_append, List.length_singleton]
    omega
  fits := by simpa only [List.length_append, List.length_singleton] using room
  recent := by
    intro index small near
    simp only [List.length_append, List.length_singleton] at small near
    by_cases last : index = history.length
    · rw [last, List.getElem?_concat_length, written]
    · have inside : index < history.length := by omega
      rw [List.getElem?_append_left inside]
      exact window.recent index inside (by omega)

/-- Head and tail indices coincide exactly when everything is popped. -/
theorem mod_eq_iff (window : Window size slot history popped) :
    history.length % size = popped % size ↔ history.length = popped := by
  constructor
  · intro same
    by_contra different
    have before : popped < history.length := by have := window.popped_le; omega
    exact mod_ne_of_lt before window.fits same.symm
  · intro same
    rw [same]

/-- One step past the head is the tail exactly when one free slot is left. -/
theorem succ_mod_eq_iff (window : Window size slot history popped) :
    (history.length + 1) % size = popped % size ↔ history.length + 1 = popped + size := by
  have := window.popped_le
  have := window.fits
  constructor
  · intro same
    by_contra different
    exact mod_ne_of_lt (by omega : popped < history.length + 1) (by omega) same.symm
  · intro same
    rw [same, Nat.add_mod_right]

/-- The distance from tail to head around the ring is the queue's length. -/
theorem distance (window : Window size slot history popped) :
    (history.length % size + size - popped % size) % size = history.length - popped := by
  obtain ⟨count, lengthEq⟩ := Nat.exists_eq_add_of_le window.popped_le
  have positive := window.size_pos
  have small : count < size := by have := window.fits; omega
  have start : popped % size < size := Nat.mod_lt _ positive
  rw [lengthEq, Nat.add_sub_cancel_left, Nat.add_mod, Nat.mod_eq_of_lt small]
  by_cases wraps : popped % size + count < size
  · rw [Nat.mod_eq_of_lt wraps,
      show popped % size + count + size - popped % size = count + size by omega,
      Nat.add_mod_right, Nat.mod_eq_of_lt small]
  · have turn : (popped % size + count) % size = popped % size + count - size := by
      rw [Nat.mod_eq_sub_mod (Nat.le_of_not_lt wraps), Nat.mod_eq_of_lt (by omega)]
    rw [turn, show popped % size + count - size + size - popped % size = count by omega,
      Nat.mod_eq_of_lt small]

end Window

end Cs140e.Library.Ring
