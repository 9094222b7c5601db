import Mathlib.Data.List.Basic

/-!
# FIFO channels with delivery steps

What a party writes is first pending at the writer, then on the wire, and at
last arrived at the reader.  Moving an item along changes nothing about the
sequence of items still to be read.
-/

namespace Cs140e.Library

structure Channel (α : Type) where
  arrived : List α
  wire : List α
  pending : List α
  deriving DecidableEq, Repr

namespace Channel

variable {α : Type}

def empty : Channel α := ⟨[], [], []⟩

/-- All items still to be read, the next one first. -/
def items (channel : Channel α) : List α := channel.arrived ++ channel.wire ++ channel.pending

/-- The writer hands over items to be sent. -/
def write (channel : Channel α) (written : List α) : Channel α :=
  { channel with pending := channel.pending ++ written }

/-- The writer puts its next pending item on the wire. -/
def send? (channel : Channel α) : Option (Channel α) :=
  match channel.pending with
  | [] => none
  | item :: rest => some { channel with wire := channel.wire ++ [item], pending := rest }

/-- The next item on the wire arrives. -/
def deliver? (channel : Channel α) : Option (Channel α) :=
  match channel.wire with
  | [] => none
  | item :: rest => some { channel with arrived := channel.arrived ++ [item], wire := rest }

/-- The reader takes the next item that has arrived. -/
def take? (channel : Channel α) : Option (α × Channel α) :=
  match channel.arrived with
  | [] => none
  | item :: rest => some (item, { channel with arrived := rest })

@[simp]
theorem items_empty : (empty : Channel α).items = [] := rfl

@[simp]
theorem items_write (channel : Channel α) (written : List α) :
    (channel.write written).items = channel.items ++ written := by
  simp only [items, write, List.append_assoc]

theorem items_send {channel after : Channel α} (step : channel.send? = some after) :
    after.items = channel.items := by
  obtain ⟨arrived, wire, pending⟩ := channel
  cases pending with
  | nil => cases step
  | cons item rest =>
      cases step
      simp only [items, List.append_assoc, List.singleton_append]

theorem items_deliver {channel after : Channel α} (step : channel.deliver? = some after) :
    after.items = channel.items := by
  obtain ⟨arrived, wire, pending⟩ := channel
  cases wire with
  | nil => cases step
  | cons item rest =>
      cases step
      simp only [items, List.append_assoc, List.singleton_append]

theorem items_take {channel after : Channel α} {item : α}
    (step : channel.take? = some (item, after)) : channel.items = item :: after.items := by
  obtain ⟨arrived, wire, pending⟩ := channel
  cases arrived with
  | nil => cases step
  | cons first rest =>
      cases step
      rfl

/-! ## How far the items have to go -/

/-- The moves that the items still have to make, the last one into the hands of the reader. -/
def distance (channel : Channel α) : Nat :=
  3 * channel.pending.length + 2 * channel.wire.length + channel.arrived.length

theorem distance_write (channel : Channel α) (written : List α) :
    (channel.write written).distance = channel.distance + 3 * written.length := by
  simp only [distance, write, List.length_append]
  omega

theorem distance_send {channel after : Channel α} (step : channel.send? = some after) :
    after.distance + 1 = channel.distance := by
  obtain ⟨arrived, wire, pending⟩ := channel
  cases pending with
  | nil => cases step
  | cons item rest =>
      cases step
      simp only [distance, List.length_append, List.length_cons, List.length_nil]
      omega

theorem distance_deliver {channel after : Channel α} (step : channel.deliver? = some after) :
    after.distance + 1 = channel.distance := by
  obtain ⟨arrived, wire, pending⟩ := channel
  cases wire with
  | nil => cases step
  | cons item rest =>
      cases step
      simp only [distance, List.length_append, List.length_cons, List.length_nil]
      omega

theorem distance_take {channel after : Channel α} {item : α}
    (step : channel.take? = some (item, after)) : after.distance + 1 = channel.distance := by
  obtain ⟨arrived, wire, pending⟩ := channel
  cases arrived with
  | nil => cases step
  | cons first rest =>
      cases step
      simp only [distance, List.length_cons]
      omega

/-- An item moves, unless all of them have arrived. -/
theorem moves_or_arrived (channel : Channel α) :
    (∃ after, channel.send? = some after) ∨ (∃ after, channel.deliver? = some after) ∨
      channel.pending = [] ∧ channel.arrived = channel.items := by
  obtain ⟨arrived, wire, pending⟩ := channel
  cases pending with
  | cons item rest => exact .inl ⟨_, rfl⟩
  | nil =>
      cases wire with
      | cons item rest => exact .inr (.inl ⟨_, rfl⟩)
      | nil =>
          refine .inr (.inr ⟨rfl, ?_⟩)
          simp only [items, List.append_nil]

theorem exists_take {channel : Channel α} (arrived : channel.arrived ≠ []) :
    ∃ item after, channel.take? = some (item, after) := by
  obtain ⟨first, rest, here⟩ := List.exists_cons_of_ne_nil arrived
  exact ⟨first, { channel with arrived := rest }, by rw [take?, here]⟩

end Channel

end Cs140e.Library
