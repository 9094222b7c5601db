import Cs140e.Libpi.CircularHistory

/-!
# The circular queue shared with an interrupt handler

The client executes its operation one memory access at a time; between any two
accesses the handler may run a complete operation of the other side.  The
client is at a program point that carries the values it has loaded so far.
The two loads of `cq_empty` and of `cq_full` are operands of one comparison,
so they may come in either order.
-/

namespace Cs140e.Libpi.Circular

open Cs140e.Library
open Cs140e.Library.Ring

variable {N : Nat}

/-! ## A client that pops and peeks, interrupted by pushes -/

/-- Program points of `cq_pop_nonblock` and, with `peek`, of `cq_peek`. -/
inductive PopPoint (N : Nat) where
  | idle
  | testEmpty (peek : Bool) (head tail : Option (Fin N))
  | loadTail (peek : Bool)
  | loadSlot (peek : Bool) (tail : Fin N)
  | storeTail (tail : Fin N) (e : Cqe)

/-- The queue, the client, and what happened so far: the bytes whose push
returned 1, the bytes popped, and for every peek the byte it returned and how
many bytes had been popped. -/
structure PopSystem (N : Nat) where
  ring : Cq N
  point : PopPoint N
  pushed : List Cqe
  popped : List Cqe
  peeked : List (Nat × Cqe)

inductive PopAction where
  | callPop
  | callPeek
  | loadHead
  | loadTail
  | next
  | interrupt (x : Cqe)

/-- The interrupt handler runs `cq_push` to its end. -/
def PopSystem.interrupt (s : PopSystem N) (x : Cqe) : PopSystem N :=
  match cqPush x s.ring with
  | .ok true ring => { s with ring := ring, pushed := s.pushed ++ [x] }
  | _ => s

def popStep? (s : PopSystem N) (action : PopAction) : Option (PopSystem N) :=
  match action, s.point with
  | .interrupt x, _ => some (s.interrupt x)
  | .callPop, .idle => some { s with point := .testEmpty false none none }
  | .callPeek, .idle => some { s with point := .testEmpty true none none }
  | .loadHead, .testEmpty peek none tail =>
      some { s with point := .testEmpty peek (some ⟨s.ring.head, s.ring.head_lt⟩) tail }
  | .loadTail, .testEmpty peek head none =>
      some { s with point := .testEmpty peek head (some ⟨s.ring.tail, s.ring.tail_lt⟩) }
  | .next, .testEmpty peek (some head) (some tail) =>
      if head = tail then some { s with point := .idle }
      else some { s with point := .loadTail peek }
  | .next, .loadTail peek =>
      some { s with point := .loadSlot peek ⟨s.ring.tail, s.ring.tail_lt⟩ }
  | .next, .loadSlot true tail =>
      some { s with
        point := .idle
        peeked := s.peeked ++ [(s.popped.length, s.ring.slot tail)] }
  | .next, .loadSlot false tail =>
      some { s with point := .storeTail tail (s.ring.slot tail) }
  | .next, .storeTail tail e =>
      some { s with
        ring := s.ring.setTail (Cq.next N tail) (s.ring.next_lt tail)
        point := .idle
        popped := s.popped ++ [e] }
  | _, _ => none

/-- The start of a run: the queue as `cq_init` leaves it. -/
def PopSystem.start (positive : 0 < N) (errorsFatalP : Bool) : PopSystem N :=
  ⟨Cq.zeroed positive errorsFatalP, .idle, [], [], []⟩

/-- What the values loaded so far still tell about the queue. -/
def PopPoint.Sound (point : PopPoint N) (pushed popped : List Cqe) : Prop :=
  match point with
  | .idle => True
  | .testEmpty _ head tail =>
      (∀ index, head = some index → ∃ count, popped.length ≤ count ∧ count ≤ pushed.length ∧
        index.val = count % N) ∧
      (∀ index, tail = some index → index.val = popped.length % N)
  | .loadTail _ => popped.length < pushed.length
  | .loadSlot _ tail => popped.length < pushed.length ∧ tail.val = popped.length % N
  | .storeTail tail e => tail.val = popped.length % N ∧ pushed[popped.length]? = some e

/-- The invariant of the interrupted consumer. -/
structure PopSystem.Inv (s : PopSystem N) : Prop where
  tracks : Tracks s.ring s.pushed s.popped.length
  order : s.popped = s.pushed.take s.popped.length
  sound : s.point.Sound s.pushed s.popped
  peeks : ∀ entry ∈ s.peeked, s.pushed[entry.1]? = some entry.2

namespace PopSystem

theorem start_inv (positive : 0 < N) (errorsFatalP : Bool) :
    (start positive errorsFatalP).Inv where
  tracks := Tracks.zeroed positive errorsFatalP
  order := rfl
  sound := trivial
  peeks := fun _ mem => absurd mem List.not_mem_nil

/-- Later pushes do not invalidate what the client has loaded. -/
theorem sound_push {point : PopPoint N} {pushed popped : List Cqe}
    (sound : point.Sound pushed popped) (x : Cqe) : point.Sound (pushed ++ [x]) popped := by
  have grown : (pushed ++ [x]).length = pushed.length + 1 := List.length_append
  cases point with
  | idle => trivial
  | testEmpty peek head tail =>
      refine ⟨fun index loaded => ?_, sound.2⟩
      obtain ⟨count, low, high, same⟩ := sound.1 index loaded
      exact ⟨count, low, by omega, same⟩
  | loadTail peek =>
      change popped.length < (pushed ++ [x]).length
      exact Nat.lt_of_lt_of_le sound (by omega)
  | loadSlot peek tail => exact ⟨Nat.lt_of_lt_of_le sound.1 (by omega), sound.2⟩
  | storeTail tail e =>
      have inside : popped.length < pushed.length := (List.getElem?_eq_some_iff.mp sound.2).1
      exact ⟨sound.1, by rw [List.getElem?_append_left inside]; exact sound.2⟩

theorem interrupt_inv (size : RingSize N) {s : PopSystem N} (inv : s.Inv) (x : Cqe) :
    (s.interrupt x).Inv := by
  by_cases room : s.pushed.length + 1 < s.popped.length + N
  · obtain ⟨ring, ran, tracks⟩ := inv.tracks.cqPush_ok size room x
    have le := inv.tracks.window.popped_le
    rw [interrupt, ran]
    refine ⟨tracks, ?_, sound_push inv.sound x, fun entry mem => ?_⟩
    · rw [List.take_append_of_le_length le]
      exact inv.order
    · have old := inv.peeks entry mem
      have inside := (List.getElem?_eq_some_iff.mp old).1
      rw [List.getElem?_append_left inside]
      exact old
  · have full : s.pushed.length + 1 = s.popped.length + N := by
      have := inv.tracks.window.fits
      omega
    rw [interrupt, inv.tracks.cqPush_full size full x]
    exact inv

/-- What the test for an empty queue has loaded tells of a byte. -/
theorem tested_inv {ring : Cq N} {peek : Bool} {head tail : Fin N} {pushed popped : List Cqe}
    {peeked : List (Nat × Cqe)}
    (inv : Inv ⟨ring, .testEmpty peek (some head) (some tail), pushed, popped, peeked⟩)
    (differ : head ≠ tail) : Inv ⟨ring, .loadTail peek, pushed, popped, peeked⟩ := by
  obtain ⟨tracks, order, sound, peeks⟩ := inv
  refine ⟨tracks, order, ?_, peeks⟩
  obtain ⟨count, low, high, headEq⟩ := sound.1 head rfl
  have tailEq := sound.2 tail rfl
  have different : popped.length ≠ count := fun equal =>
    differ (Fin.ext (by rw [headEq, tailEq, equal]))
  change popped.length < pushed.length
  dsimp only at low high
  omega

/-- The store to `tail` takes the oldest byte. -/
theorem storeTail_inv (size : RingSize N) {ring : Cq N} {tail : Fin N} {e : Cqe}
    {pushed popped : List Cqe} {peeked : List (Nat × Cqe)}
    (inv : Inv ⟨ring, .storeTail tail e, pushed, popped, peeked⟩) :
    Inv ⟨ring.setTail (Cq.next N tail) (ring.next_lt tail), .idle, pushed, popped ++ [e],
      peeked⟩ := by
  obtain ⟨tracks, order, sound, peeks⟩ := inv
  dsimp only at tracks order
  obtain ⟨inside, byteEq⟩ := List.getElem?_eq_some_iff.mp sound.2
  have grown : (popped ++ [e]).length = popped.length + 1 := List.length_append
  have moved : Cq.next N tail = Cq.next N ring.tail := by rw [sound.1, tracks.tail_eq]
  refine ⟨?_, ?_, trivial, peeks⟩
  · change Tracks (ring.setTail (Cq.next N tail) _) pushed (popped ++ [e]).length
    rw [grown]
    have fits := tracks.window.fits
    refine tracks.setTail _ inside (by omega) ?_
    rw [moved, tracks.tail_eq, Tracks.next_mod size]
  · change popped ++ [e] = pushed.take (popped ++ [e]).length
    rw [grown, List.take_add_one, ← order, sound.2]
    rfl

/-- One access of the client, or one interrupt, keeps the invariant. -/
theorem step_inv (size : RingSize N) {s after : PopSystem N} (inv : s.Inv) (action : PopAction)
    (step : popStep? s action = some after) : after.Inv := by
  obtain ⟨ring, point, pushed, popped, peeked⟩ := s
  obtain ⟨tracks, order, sound, peeks⟩ := inv
  dsimp only at tracks order sound peeks
  have le := tracks.window.popped_le
  cases action with
  | interrupt x =>
      cases step
      exact interrupt_inv size ⟨tracks, order, sound, peeks⟩ x
  | callPop =>
      cases point with
      | idle =>
          cases step
          exact ⟨tracks, order, ⟨nofun, nofun⟩, peeks⟩
      | _ => cases step
  | callPeek =>
      cases point with
      | idle =>
          cases step
          exact ⟨tracks, order, ⟨nofun, nofun⟩, peeks⟩
      | _ => cases step
  | loadHead =>
      match point, step, sound with
      | .testEmpty peek none tail, step, sound =>
          cases step
          refine ⟨tracks, order, ⟨fun index loaded => ?_, sound.2⟩, peeks⟩
          cases loaded
          exact ⟨pushed.length, le, Nat.le_refl _, tracks.head_eq⟩
  | loadTail =>
      match point, step, sound with
      | .testEmpty peek head none, step, sound =>
          cases step
          refine ⟨tracks, order, ⟨sound.1, fun index loaded => ?_⟩, peeks⟩
          cases loaded
          exact tracks.tail_eq
  | next =>
      match point, step, sound with
      | .testEmpty peek (some head) (some tail), step, sound =>
          by_cases same : head = tail
          · cases (if_pos same).symm.trans step
            exact ⟨tracks, order, trivial, peeks⟩
          · cases (if_neg same).symm.trans step
            exact tested_inv ⟨tracks, order, sound, peeks⟩ same
      | .loadTail peek, step, sound =>
          cases step
          exact ⟨tracks, order, ⟨sound, tracks.tail_eq⟩, peeks⟩
      | .loadSlot true tail, step, sound =>
          cases step
          refine ⟨tracks, order, trivial, fun entry mem => ?_⟩
          rcases List.mem_append.mp mem with old | new
          · exact peeks entry old
          · cases List.mem_singleton.mp new
            change pushed[popped.length]? = some (ring.slot tail)
            rw [sound.2]
            exact tracks.window.oldest sound.1
      | .loadSlot false tail, step, sound =>
          cases step
          refine ⟨tracks, order, ⟨sound.2, ?_⟩, peeks⟩
          rw [sound.2]
          exact tracks.window.oldest sound.1
      | .storeTail tail e, step, sound =>
          cases step
          exact storeTail_inv size ⟨tracks, order, sound, peeks⟩

end PopSystem

/-! ## A client that pushes, interrupted by pops -/

/-- Program points of `cq_push`. -/
inductive PushPoint (N : Nat) where
  | idle
  | loadHead (x : Cqe)
  | testFull (x : Cqe) (start : Fin N) (head tail : Option (Fin N))
  | storeSlot (x : Cqe) (start : Fin N)
  | storeHead (x : Cqe) (start : Fin N)

structure PushSystem (N : Nat) where
  ring : Cq N
  point : PushPoint N
  pushed : List Cqe
  popped : List Cqe

inductive PushAction where
  | callPush (x : Cqe)
  | loadHead
  | loadTail
  | next
  | interrupt

/-- The interrupt handler runs `cq_pop_nonblock` to its end. -/
def PushSystem.interrupt (s : PushSystem N) : PushSystem N :=
  match cqPopNonblock s.ring with
  | .ok (some e) ring => { s with ring := ring, popped := s.popped ++ [e] }
  | _ => s

def pushStep? (s : PushSystem N) (action : PushAction) : Option (PushSystem N) :=
  match action, s.point with
  | .interrupt, _ => some s.interrupt
  | .callPush x, .idle => some { s with point := .loadHead x }
  | .next, .loadHead x =>
      some { s with point := .testFull x ⟨s.ring.head, s.ring.head_lt⟩ none none }
  | .loadHead, .testFull x start none tail =>
      some { s with point := .testFull x start (some ⟨s.ring.head, s.ring.head_lt⟩) tail }
  | .loadTail, .testFull x start head none =>
      some { s with point := .testFull x start head (some ⟨s.ring.tail, s.ring.tail_lt⟩) }
  | .next, .testFull x start (some head) (some tail) =>
      if Cq.next N head = tail then some { s with point := .idle }
      else some { s with point := .storeSlot x start }
  | .next, .storeSlot x start =>
      some { s with ring := s.ring.setSlot start start.isLt x, point := .storeHead x start }
  | .next, .storeHead x start =>
      some { s with
        ring := s.ring.setHead (Cq.next N start) (s.ring.next_lt start)
        point := .idle
        pushed := s.pushed ++ [x] }
  | _, _ => none

def PushSystem.start (positive : 0 < N) (errorsFatalP : Bool) : PushSystem N :=
  ⟨Cq.zeroed positive errorsFatalP, .idle, [], []⟩

def PushPoint.Sound (point : PushPoint N) (ring : Cq N) (pushed popped : List Cqe) : Prop :=
  match point with
  | .idle => True
  | .loadHead _ => True
  | .testFull _ start head tail =>
      start.val = pushed.length % N ∧
      (∀ index, head = some index → index.val = pushed.length % N) ∧
      (∀ index, tail = some index → ∃ count, count ≤ popped.length ∧
        pushed.length < count + N ∧ index.val = count % N)
  | .storeSlot _ start =>
      start.val = pushed.length % N ∧ pushed.length + 1 < popped.length + N
  | .storeHead x start =>
      start.val = pushed.length % N ∧ pushed.length + 1 < popped.length + N ∧
      ring.slot start = x

/-- The invariant of the interrupted producer. -/
structure PushSystem.Inv (s : PushSystem N) : Prop where
  tracks : Tracks s.ring s.pushed s.popped.length
  order : s.popped = s.pushed.take s.popped.length
  sound : s.point.Sound s.ring s.pushed s.popped

namespace PushSystem

theorem start_inv (positive : 0 < N) (errorsFatalP : Bool) :
    (start positive errorsFatalP).Inv where
  tracks := Tracks.zeroed positive errorsFatalP
  order := rfl
  sound := trivial

/-- Later pops do not invalidate what the client has loaded. -/
theorem sound_pop {point : PushPoint N} {ring after : Cq N} {pushed popped : List Cqe}
    (sound : point.Sound ring pushed popped) (e : Cqe) (sameSlots : after.slot = ring.slot) :
    point.Sound after pushed (popped ++ [e]) := by
  have grown : (popped ++ [e]).length = popped.length + 1 := List.length_append
  cases point with
  | idle => trivial
  | loadHead x => trivial
  | testFull x start head tail =>
      refine ⟨sound.1, sound.2.1, fun index loaded => ?_⟩
      obtain ⟨count, low, fits, same⟩ := sound.2.2 index loaded
      exact ⟨count, by omega, fits, same⟩
  | storeSlot x start => exact ⟨sound.1, by have := sound.2; omega⟩
  | storeHead x start =>
      refine ⟨sound.1, by have := sound.2.1; omega, ?_⟩
      rw [sameSlots]
      exact sound.2.2

theorem interrupt_inv (size : RingSize N) {s : PushSystem N} (inv : s.Inv) : s.interrupt.Inv := by
  by_cases nonempty : s.popped.length < s.pushed.length
  · have oldest := inv.tracks.slot_tail nonempty
    have occupied : ¬ cqEmpty s.ring = true := fun yes => by
      have := inv.tracks.empty_iff.mp yes
      omega
    have ran : cqPopNonblock s.ring = .ok (some (s.ring.slot s.ring.tail))
        (s.ring.setTail (Cq.next N s.ring.tail) (s.ring.next_lt _)) := by
      rw [cqPopNonblock, if_neg occupied]
    have grown : (s.popped ++ [s.ring.slot s.ring.tail]).length = s.popped.length + 1 :=
      List.length_append
    rw [interrupt, ran]
    refine ⟨?_, ?_, sound_pop inv.sound _ rfl⟩
    · dsimp only
      rw [grown]
      exact inv.tracks.advanceTail size nonempty
    · dsimp only
      rw [grown, List.take_add_one, ← inv.order, oldest]
      rfl
  · have empty : s.pushed.length = s.popped.length := by
      have := inv.tracks.window.popped_le
      omega
    rw [interrupt, inv.tracks.cqPopNonblock_none empty]
    exact inv

/-- What the test for a full queue has loaded tells of room. -/
theorem tested_inv (size : RingSize N) {ring : Cq N} {x : Cqe} {start head tail : Fin N}
    {pushed popped : List Cqe}
    (inv : Inv ⟨ring, .testFull x start (some head) (some tail), pushed, popped⟩)
    (differ : Cq.next N head ≠ tail) : Inv ⟨ring, .storeSlot x start, pushed, popped⟩ := by
  obtain ⟨tracks, order, sound⟩ := inv
  refine ⟨tracks, order, sound.1, ?_⟩
  obtain ⟨count, low, old, tailEq⟩ := sound.2.2 tail rfl
  have different : pushed.length + 1 ≠ count + N := fun equal => differ (by
    rw [sound.2.1 head rfl, Tracks.next_mod size, tailEq, equal, Nat.add_mod_right])
  have fits := tracks.window.fits
  change pushed.length + 1 < popped.length + N
  dsimp only at low old fits
  omega

theorem storeSlot_inv {ring : Cq N} {x : Cqe} {start : Fin N} {pushed popped : List Cqe}
    (inv : Inv ⟨ring, .storeSlot x start, pushed, popped⟩) :
    Inv ⟨ring.setSlot start start.isLt x, .storeHead x start, pushed, popped⟩ := by
  obtain ⟨tracks, order, sound⟩ := inv
  have atHead : start.val = ring.head := by rw [sound.1, tracks.head_eq]
  have sameRing : ring.setSlot start start.isLt x = ring.setSlot ring.head ring.head_lt x := by
    congr 1
  refine ⟨?_, order, sound.1, sound.2, ?_⟩
  · change Tracks (ring.setSlot start start.isLt x) pushed popped.length
    rw [sameRing]
    exact tracks.setSlot x
  · change (ring.setSlot start start.isLt x).slot start = x
    rw [Cq.setSlot_slot, Function.update_self]

/-- The store to `head` adds the byte in the slot. -/
theorem storeHead_inv (size : RingSize N) {ring : Cq N} {x : Cqe} {start : Fin N}
    {pushed popped : List Cqe} (inv : Inv ⟨ring, .storeHead x start, pushed, popped⟩) :
    Inv ⟨ring.setHead (Cq.next N start) (ring.next_lt start), .idle, pushed ++ [x], popped⟩ := by
  obtain ⟨tracks, order, sound⟩ := inv
  dsimp only at tracks order
  have atHead : start.val = ring.head := by rw [sound.1, tracks.head_eq]
  have stored : ring.slot ring.head = x := by rw [← atHead]; exact sound.2.2
  have sameRing : ring.setHead (Cq.next N start) (ring.next_lt start) =
      ring.setHead (Cq.next N ring.head) (ring.next_lt _) := by
    simp only [atHead]
  refine ⟨?_, ?_, trivial⟩
  · change Tracks (ring.setHead (Cq.next N start) _) (pushed ++ [x]) popped.length
    rw [sameRing]
    exact tracks.setHead size sound.2.1 stored
  · change popped = (pushed ++ [x]).take popped.length
    rw [List.take_append_of_le_length tracks.window.popped_le]
    exact order

/-- One access of the client, or one interrupt, keeps the invariant. -/
theorem step_inv (size : RingSize N) {s after : PushSystem N} (inv : s.Inv) (action : PushAction)
    (step : pushStep? s action = some after) : after.Inv := by
  obtain ⟨ring, point, pushed, popped⟩ := s
  obtain ⟨tracks, order, sound⟩ := inv
  dsimp only at tracks order sound
  have fits := tracks.window.fits
  cases action with
  | interrupt =>
      cases step
      exact interrupt_inv size ⟨tracks, order, sound⟩
  | callPush x =>
      cases point with
      | idle =>
          cases step
          exact ⟨tracks, order, trivial⟩
      | _ => cases step
  | loadHead =>
      match point, step, sound with
      | .testFull x start none tail, step, sound =>
          cases step
          refine ⟨tracks, order, sound.1, fun index loaded => ?_, sound.2.2⟩
          cases loaded
          exact tracks.head_eq
  | loadTail =>
      match point, step, sound with
      | .testFull x start head none, step, sound =>
          cases step
          refine ⟨tracks, order, sound.1, sound.2.1, fun index loaded => ?_⟩
          cases loaded
          exact ⟨popped.length, Nat.le_refl _, fits, tracks.tail_eq⟩
  | next =>
      match point, step, sound with
      | .loadHead x, step, _ =>
          cases step
          exact ⟨tracks, order, tracks.head_eq, nofun, nofun⟩
      | .testFull x start (some head) (some tail), step, sound =>
          by_cases same : Cq.next N head = tail
          · cases (if_pos same).symm.trans step
            exact ⟨tracks, order, trivial⟩
          · cases (if_neg same).symm.trans step
            exact tested_inv size ⟨tracks, order, sound⟩ same
      | .storeSlot x start, step, sound =>
          cases step
          exact storeSlot_inv ⟨tracks, order, sound⟩
      | .storeHead x start, step, sound =>
          cases step
          exact storeHead_inv size ⟨tracks, order, sound⟩

end PushSystem

/-! ## Whole runs -/

/-- The popped bytes followed by the queued ones are the bytes whose push
returned 1, and the slot the next push writes holds none of them. -/
def Lossless (ring : Cq N) (pushed popped : List Cqe) : Prop :=
  pushed = popped ++ cqContents ring ∧ ring.head ∉ occupied ring

theorem lossless_of_tracks (size : RingSize N) {ring : Cq N} {pushed popped : List Cqe}
    (tracks : Tracks ring pushed popped.length) (order : popped = pushed.take popped.length) :
    Lossless ring pushed popped := by
  refine ⟨?_, tracks.head_not_occupied size⟩
  calc pushed = pushed.take popped.length ++ pushed.drop popped.length :=
        (List.take_append_drop _ _).symm
    _ = popped ++ cqContents ring := by rw [← order, tracks.contents_eq size]

/-- However the pops and peeks of the client are interrupted by pushes, and
however the pushes of the client are interrupted by pops, no byte is lost,
duplicated or invented, and no push writes a slot that is still occupied. -/
theorem interrupted_ring_lossless (size : RingSize N) (positive : 0 < N) (errorsFatalP : Bool) :
    (∀ (actions : List PopAction) (s : PopSystem N),
      actions.foldlM popStep? (PopSystem.start positive errorsFatalP) = some s →
        Lossless s.ring s.pushed s.popped ∧
        ∀ entry ∈ s.peeked, s.pushed[entry.1]? = some entry.2) ∧
    (∀ (actions : List PushAction) (s : PushSystem N),
      actions.foldlM pushStep? (PushSystem.start positive errorsFatalP) = some s →
        Lossless s.ring s.pushed s.popped ∧
        ∀ x start, s.point = .storeSlot x start → start.val ∉ occupied s.ring) := by
  constructor
  · intro actions s run
    have inv := foldlM_keeps _ (fun _ action _ inv step => PopSystem.step_inv size inv action step)
      actions _ _ (PopSystem.start_inv positive errorsFatalP) run
    exact ⟨lossless_of_tracks size inv.tracks inv.order, inv.peeks⟩
  · intro actions s run
    have inv := foldlM_keeps _ (fun _ action _ inv step => PushSystem.step_inv size inv action step)
      actions _ _ (PushSystem.start_inv positive errorsFatalP) run
    refine ⟨lossless_of_tracks size inv.tracks inv.order, fun x start atStore => ?_⟩
    have sound := inv.sound
    rw [atStore] at sound
    rw [sound.1, ← inv.tracks.head_eq]
    exact inv.tracks.head_not_occupied size

/-- Both runs exist: a pop interrupted between its test and its loads, and a
push interrupted between its store into the slot and its store into the head. -/
theorem interrupted_ring_lossless_two :
    (∃ s, [PopAction.interrupt 7, .callPop, .loadTail, .interrupt 8, .loadHead, .next, .next,
        .next, .next].foldlM popStep? (PopSystem.start (N := 2) (by decide) true) = some s ∧
      Lossless s.ring s.pushed s.popped ∧
      ∀ entry ∈ s.peeked, s.pushed[entry.1]? = some entry.2) ∧
    (∃ s, [PushAction.callPush 7, .next, .loadHead, .loadTail, .next, .next, .interrupt, .next,
        .interrupt].foldlM pushStep? (PushSystem.start (N := 2) (by decide) true) = some s ∧
      Lossless s.ring s.pushed s.popped ∧
      ∀ x start, s.point = .storeSlot x start → start.val ∉ occupied s.ring) :=
  have both := interrupted_ring_lossless (N := 2) ⟨1, by decide, by decide, rfl⟩ (by decide) true
  ⟨⟨_, rfl, both.1 [.interrupt 7, .callPop, .loadTail, .interrupt 8, .loadHead, .next, .next,
      .next, .next] _ rfl⟩,
    ⟨_, rfl, both.2 [.callPush 7, .next, .loadHead, .loadTail, .next, .next, .interrupt, .next,
      .interrupt] _ rfl⟩⟩

end Cs140e.Libpi.Circular
