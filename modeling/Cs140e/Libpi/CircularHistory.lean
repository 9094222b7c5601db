import Cs140e.Library.Ring
import Cs140e.Libpi.Circular

/-!
# The representation invariant of the circular queue

A queue tracks a history when its head and tail are the numbers of bytes ever
pushed and popped, taken modulo `CQ_N`, and its slots remember the recent part
of the history.  One lemma per operation says how it moves the history; none
of them looks at the wrap-around again.
-/

namespace Cs140e.Libpi.Circular

open Cs140e.Library
open Cs140e.Library.Ring

/-- A power of two whose byte counts fit the `int` counters of the source. -/
def RingSize (N : Nat) : Prop := ∃ k, 1 ≤ k ∧ k ≤ 31 ∧ N = 2 ^ k

theorem RingSize.two_le {N : Nat} (size : RingSize N) : 2 ≤ N := by
  obtain ⟨k, low, _, rfl⟩ := size
  calc 2 = 2 ^ 1 := rfl
    _ ≤ 2 ^ k := Nat.pow_le_pow_right (by decide) low

theorem RingSize.le {N : Nat} (size : RingSize N) : N ≤ 2 ^ 31 := by
  obtain ⟨k, _, high, rfl⟩ := size
  exact Nat.pow_le_pow_right (by decide) high

theorem RingSize.dvd {N : Nat} (size : RingSize N) : N ∣ 2 ^ 32 := by
  obtain ⟨k, _, high, rfl⟩ := size
  exact Nat.pow_dvd_pow 2 (Nat.le_trans high (by decide))

/-- The slots from the tail up to the head, going forward around the ring. -/
def occupied {N : Nat} (c : Cq N) : List Nat :=
  (List.range (cqNelem c)).map fun offset => (c.tail + offset) % N

/-- The bytes in the queue, oldest first. -/
def cqContents {N : Nat} (c : Cq N) : List Cqe := (occupied c).map c.slot

/-- `history` was pushed into the queue and its first `popped` bytes were popped. -/
structure Tracks {N : Nat} (c : Cq N) (history : List Cqe) (popped : Nat) : Prop where
  head_eq : c.head = history.length % N
  tail_eq : c.tail = popped % N
  window : Window N c.slot history popped

namespace Tracks

variable {N : Nat} {c : Cq N} {history : List Cqe} {popped : Nat}

/-! ## The index arithmetic -/

theorem next_mod (size : RingSize N) (count : Nat) :
    Cq.next N (count % N) = (count + 1) % N := by
  have positive : 0 < N := by have := size.two_le; omega
  have small : count % N + 1 < 2 ^ 32 := by
    have := Nat.mod_lt count positive
    have := size.le
    omega
  rw [Cq.next, unsigned, Nat.mod_eq_of_lt small, Nat.mod_add_mod]

theorem empty_iff (tracks : Tracks c history popped) :
    cqEmpty c = true ↔ history.length = popped := by
  rw [cqEmpty, beq_iff_eq, tracks.head_eq, tracks.tail_eq]
  exact tracks.window.mod_eq_iff

theorem full_iff (size : RingSize N) (tracks : Tracks c history popped) :
    cqFull c = true ↔ history.length + 1 = popped + N := by
  rw [cqFull, beq_iff_eq, tracks.head_eq, tracks.tail_eq, next_mod size]
  exact tracks.window.succ_mod_eq_iff

/-- `N` divides `2 ^ 32`, so the 32-bit difference counts the queued bytes. -/
theorem nelem_eq (size : RingSize N) (tracks : Tracks c history popped) :
    cqNelem c = history.length - popped := by
  obtain ⟨turns, turnsEq⟩ := size.dvd
  have bound := size.le
  have below := c.tail_lt
  have split : c.head + 2 ^ 32 - c.tail = c.head + N - c.tail + N * (turns - 1) := by
    have : N * (turns - 1) = 2 ^ 32 - N := by rw [turnsEq, Nat.mul_sub, Nat.mul_one]
    omega
  calc cqNelem c = (c.head + 2 ^ 32 - c.tail) % 2 ^ 32 % N := rfl
    _ = (c.head + 2 ^ 32 - c.tail) % N := Nat.mod_mod_of_dvd _ size.dvd
    _ = (c.head + N - c.tail) % N := by rw [split, Nat.add_mul_mod_self_left]
    _ = history.length - popped := by
      rw [tracks.head_eq, tracks.tail_eq]
      exact tracks.window.distance

theorem le_nelem_iff (size : RingSize N) (tracks : Tracks c history popped) (count : Nat) :
    count ≤ cqNelem c ↔ popped + count ≤ history.length := by
  rw [tracks.nelem_eq size]
  have := tracks.window.popped_le
  omega

/-! ## The slots between tail and head -/

/-- The occupied slots hold exactly the bytes that were not popped. -/
theorem contents_eq (size : RingSize N) (tracks : Tracks c history popped) :
    cqContents c = history.drop popped := by
  apply List.ext_getElem?
  intro offset
  rw [cqContents, occupied, List.map_map, List.getElem?_map, tracks.nelem_eq size,
    List.getElem?_drop]
  by_cases inside : popped + offset < history.length
  · have := tracks.window.fits
    rw [List.getElem?_range (by omega), tracks.window.recent _ inside (by omega)]
    simp only [Option.map_some, Function.comp, tracks.tail_eq, Nat.mod_add_mod]
  · rw [List.getElem?_eq_none (by rw [List.length_range]; omega),
      List.getElem?_eq_none (Nat.le_of_not_lt inside)]
    rfl

/-- The slot at the head is never occupied. -/
theorem head_not_occupied (size : RingSize N) (tracks : Tracks c history popped) :
    c.head ∉ occupied c := by
  intro mem
  rw [occupied, List.mem_map] at mem
  obtain ⟨offset, small, same⟩ := mem
  rw [List.mem_range, tracks.nelem_eq size] at small
  rw [tracks.tail_eq, tracks.head_eq, Nat.mod_add_mod] at same
  have := tracks.window.fits
  exact Window.mod_ne_of_lt (by omega) (by omega) same

/-! ## What each operation does to the history -/

theorem zeroed (positive : 0 < N) (errorsFatalP : Bool) :
    Tracks (Cq.zeroed positive errorsFatalP) [] 0 where
  head_eq := (Nat.zero_mod N).symm
  tail_eq := (Nat.zero_mod N).symm
  window := Window.nil _ positive

theorem setTail (tracks : Tracks c history popped) {earlier tail : Nat} (small : tail < N)
    (known : earlier ≤ history.length) (fits : history.length < earlier + N)
    (tailEq : tail = earlier % N) : Tracks (c.setTail tail small) history earlier where
  head_eq := tracks.head_eq
  tail_eq := tailEq
  window := tracks.window.rewind known fits

/-- Storing into the slot at the head leaves all queued bytes in place. -/
theorem setSlot (tracks : Tracks c history popped) (x : Cqe) :
    Tracks (c.setSlot c.head c.head_lt x) history popped where
  head_eq := tracks.head_eq
  tail_eq := tracks.tail_eq
  window := by
    rw [Cq.setSlot_slot, tracks.head_eq]
    exact tracks.window.write x

/-- Advancing the head publishes the byte stored in the slot at the head. -/
theorem setHead (size : RingSize N) (tracks : Tracks c history popped)
    (room : history.length + 1 < popped + N) {x : Cqe} (stored : c.slot c.head = x) :
    Tracks (c.setHead (Cq.next N c.head) (c.next_lt _)) (history ++ [x]) popped where
  head_eq := by
    rw [Cq.setHead_head, tracks.head_eq, next_mod size, List.length_append,
      List.length_singleton]
  tail_eq := tracks.tail_eq
  window := by
    rw [tracks.head_eq] at stored
    exact tracks.window.push room stored

/-- Advancing the tail pops one byte. -/
theorem advanceTail (size : RingSize N) (tracks : Tracks c history popped)
    (nonempty : popped < history.length) :
    Tracks (c.setTail (Cq.next N c.tail) (c.next_lt _)) history (popped + 1) where
  head_eq := tracks.head_eq
  tail_eq := by rw [Cq.setTail_tail, tracks.tail_eq, next_mod size]
  window := tracks.window.pop nonempty

/-- The byte at the tail is the oldest byte not popped. -/
theorem slot_tail (tracks : Tracks c history popped) (nonempty : popped < history.length) :
    history[popped]? = some (c.slot c.tail) := by
  rw [tracks.tail_eq]
  exact tracks.window.oldest nonempty

theorem cqPopNonblock_none (tracks : Tracks c history popped) (empty : history.length = popped) :
    cqPopNonblock c = .ok none c := by
  rw [cqPopNonblock, if_pos (tracks.empty_iff.mpr empty)]

theorem cqPopNonblock_some (size : RingSize N) (tracks : Tracks c history popped)
    (nonempty : popped < history.length) :
    ∃ after, cqPopNonblock c = .ok history[popped]? after ∧ Tracks after history (popped + 1) := by
  refine ⟨_, ?_, tracks.advanceTail size nonempty⟩
  have occupied : ¬ cqEmpty c = true := fun yes => by
    have := tracks.empty_iff.mp yes
    omega
  rw [cqPopNonblock, if_neg occupied, tracks.slot_tail nonempty]

theorem cqPop_ok (size : RingSize N) (tracks : Tracks c history popped)
    (nonempty : popped < history.length) :
    ∃ after, cqPop c = .ok history[popped] after ∧ Tracks after history (popped + 1) := by
  obtain ⟨after, ran, kept⟩ := tracks.cqPopNonblock_some size nonempty
  refine ⟨after, ?_, kept⟩
  rw [cqPop, Prog.bind_of_ok ran, List.getElem?_eq_getElem nonempty]
  rfl

theorem cqPush_full (size : RingSize N) (tracks : Tracks c history popped)
    (full : history.length + 1 = popped + N) (x : Cqe) : cqPush x c = .ok false c := by
  rw [cqPush, if_pos ((tracks.full_iff size).mpr full)]

theorem cqPush_ok (size : RingSize N) (tracks : Tracks c history popped)
    (room : history.length + 1 < popped + N) (x : Cqe) :
    ∃ after, cqPush x c = .ok true after ∧ Tracks after (history ++ [x]) popped := by
  have free : ¬ cqFull c = true := fun yes => by
    have := (tracks.full_iff size).mp yes
    omega
  have stored : (c.setSlot c.head c.head_lt x).slot (c.setSlot c.head c.head_lt x).head = x := by
    rw [Cq.setSlot_slot, Cq.setSlot_head, Function.update_self]
  refine ⟨_, ?_, (tracks.setSlot x).setHead size room stored⟩
  rw [cqPush, if_neg free]
  rfl

theorem cqPushAll_ok (size : RingSize N) {data : List Cqe} (tracks : Tracks c history popped)
    (room : history.length + data.length < popped + N) :
    ∃ after, cqPushAll data c = .ok () after ∧ Tracks after (history ++ data) popped := by
  induction data generalizing c history with
  | nil => exact ⟨c, rfl, by rwa [List.append_nil]⟩
  | cons x rest ih =>
      rw [List.length_cons] at room
      obtain ⟨middle, pushed, kept⟩ := tracks.cqPush_ok size (by omega) x
      obtain ⟨after, ran, keptAfter⟩ := ih kept (by
        rw [List.length_append, List.length_singleton]
        omega)
      refine ⟨after, ?_, by rwa [List.append_assoc] at keptAfter⟩
      rw [cqPushAll, Prog.bind_of_ok pushed, if_pos rfl, ran]

/-- The push of the last byte that no longer fits panics. -/
theorem cqPushAll_overflow (size : RingSize N) {data : List Cqe} (tracks : Tracks c history popped)
    (room : history.length < popped + N) (exceeds : popped + N ≤ history.length + data.length) :
    ∃ after, cqPushAll data c = .error (.panic "not handling this\n") after := by
  induction data generalizing c history with
  | nil =>
      rw [List.length_nil] at exceeds
      omega
  | cons x rest ih =>
      by_cases full : history.length + 1 = popped + N
      · refine ⟨c, ?_⟩
        rw [cqPushAll, Prog.bind_of_ok (tracks.cqPush_full size full x),
          if_neg Bool.false_ne_true]
        rfl
      · rw [List.length_cons] at exceeds
        obtain ⟨middle, pushed, kept⟩ := tracks.cqPush_ok size (by omega) x
        have lengths : (history ++ [x]).length = history.length + 1 := by
          rw [List.length_append, List.length_singleton]
        obtain ⟨after, ran⟩ := ih kept (by omega) (by omega)
        refine ⟨after, ?_⟩
        rw [cqPushAll, Prog.bind_of_ok pushed, if_pos rfl, ran]

/-- What fits below a full ring is pushed as a whole. -/
theorem cqPushN_ok (size : RingSize N) (data : List Cqe) (tracks : Tracks c history popped)
    (room : history.length + data.length < popped + N) :
    ∃ after, cqPushN data c = .ok true after ∧ Tracks after (history ++ data) popped := by
  obtain ⟨after, ran, kept⟩ := tracks.cqPushAll_ok size room
  have known := tracks.window.popped_le
  have enough : ¬ cqNspace c < data.length := by
    rw [cqNspace, tracks.nelem_eq size]
    omega
  refine ⟨after, ?_, kept⟩
  rw [cqPushN, Prog.bind_of_ok (Prog.get_apply c), if_neg enough]
  rw [Prog.bind_of_ok ran]
  by_cases some : data.length = 0
  · rw [if_neg (not_not_intro some)]
    rfl
  · have nonempty : (!cqEmpty after) = true := by
      rw [Bool.not_eq_true', Bool.eq_false_iff]
      intro yes
      have := kept.empty_iff.mp yes
      rw [List.length_append] at this
      omega
    rw [if_pos some, Prog.bind_of_ok (Prog.get_apply after),
      Prog.bind_of_ok (Prog.assertThat_of _ _ nonempty)]
    rfl

/-- `cq_nspace` counts one slot too many: data that needs all of it panics. -/
theorem cqPushN_overflow (size : RingSize N) (data : List Cqe) (tracks : Tracks c history popped)
    (exact : history.length + data.length = popped + N) :
    ∃ after, cqPushN data c = .error (.panic "not handling this\n") after := by
  have known := tracks.window.popped_le
  have fits := tracks.window.fits
  obtain ⟨after, ran⟩ := tracks.cqPushAll_overflow size fits (Nat.le_of_eq exact.symm)
  have enough : ¬ cqNspace c < data.length := by
    rw [cqNspace, tracks.nelem_eq size]
    omega
  refine ⟨after, ?_⟩
  rw [cqPushN, Prog.bind_of_ok (Prog.get_apply c), if_neg enough]
  rw [Prog.bind_of_error ran]

/-- Data for which `cq_nspace` has no room is refused. -/
theorem cqPushN_refused (size : RingSize N) (data : List Cqe) (tracks : Tracks c history popped)
    (exceeds : popped + N < history.length + data.length) : cqPushN data c = .ok false c := by
  have known := tracks.window.popped_le
  have fits := tracks.window.fits
  have short : cqNspace c < data.length := by
    rw [cqNspace, tracks.nelem_eq size]
    omega
  rw [cqPushN, Prog.bind_of_ok (Prog.get_apply c), if_pos short]
  rfl

theorem cqPeek_eq (tracks : Tracks c history popped) :
    cqPeek c = .ok history[popped]? c := by
  by_cases nonempty : popped < history.length
  · have occupied : ¬ cqEmpty c = true := fun yes => by
      have := tracks.empty_iff.mp yes
      omega
    rw [cqPeek, if_neg occupied, tracks.slot_tail nonempty]
  · have empty : history.length = popped := by have := tracks.window.popped_le; omega
    rw [cqPeek, if_pos (tracks.empty_iff.mpr empty),
      List.getElem?_eq_none (Nat.le_of_eq empty)]

theorem cqPopN_ok (size : RingSize N) (n : Nat) {c : Cq N} {popped : Nat}
    (tracks : Tracks c history popped) (enough : popped + n ≤ history.length) :
    ∃ after, cqPopN n c = .ok ((history.drop popped).take n) after ∧
      Tracks after history (popped + n) := by
  induction n generalizing c popped with
  | zero => exact ⟨c, rfl, tracks⟩
  | succ n ih =>
      have nonempty : popped < history.length := by omega
      obtain ⟨middle, first, middleTracks⟩ := tracks.cqPop_ok size nonempty
      obtain ⟨after, rest, afterTracks⟩ := ih middleTracks (by omega)
      refine ⟨after, ?_, by rwa [show popped + (n + 1) = popped + 1 + n by omega]⟩
      rw [cqPopN, Prog.bind_of_ok first, Prog.bind_of_ok rest, List.drop_eq_getElem_cons nonempty]
      rfl

theorem cqPopNNoblk_none (size : RingSize N) (tracks : Tracks c history popped) {n : Nat}
    (few : history.length < popped + n) : cqPopNNoblk n c = .ok none c := by
  have short : cqNelem c < n := by
    have := tracks.le_nelem_iff size n
    omega
  rw [cqPopNNoblk, Prog.bind_of_ok (Prog.get_apply c), if_pos short]
  rfl

theorem cqPopNNoblk_some (size : RingSize N) (tracks : Tracks c history popped) {n : Nat}
    (enough : popped + n ≤ history.length) :
    ∃ after, cqPopNNoblk n c = .ok (some ((history.drop popped).take n)) after ∧
      Tracks after history (popped + n) := by
  have long : ¬ cqNelem c < n := by
    have := tracks.le_nelem_iff size n
    omega
  obtain ⟨after, ran, kept⟩ := tracks.cqPopN_ok size n enough
  refine ⟨after, ?_, kept⟩
  rw [cqPopNNoblk, Prog.bind_of_ok (Prog.get_apply c), if_neg long, Prog.bind_of_ok ran]
  rfl

theorem cqPeekN_none (size : RingSize N) (tracks : Tracks c history popped) {n : Nat}
    (few : history.length < popped + n) : cqPeekN n c = .ok none c := by
  have short : n > cqNelem c := by
    have := tracks.le_nelem_iff size n
    omega
  rw [cqPeekN, Prog.bind_of_ok (Prog.get_apply c), if_pos short]
  rfl

/-- The peek pops `n` bytes, puts the tail back, and finds all bytes again. -/
theorem cqPeekN_some (size : RingSize N) (tracks : Tracks c history popped) {n : Nat}
    (enough : popped + n ≤ history.length) :
    ∃ after, cqPeekN n c = .ok (some ((history.drop popped).take n)) after ∧
      Tracks after history popped := by
  have long : ¬ n > cqNelem c := by
    have := tracks.le_nelem_iff size n
    omega
  obtain ⟨middle, ran, kept⟩ := tracks.cqPopNNoblk_some size enough
  have restored : Tracks (middle.setTail c.tail c.tail_lt) history popped :=
    kept.setTail c.tail_lt tracks.window.popped_le tracks.window.fits tracks.tail_eq
  have same : (cqNelem c == cqNelem (middle.setTail c.tail c.tail_lt)) = true := by
    rw [beq_iff_eq, tracks.nelem_eq size, restored.nelem_eq size]
  refine ⟨_, ?_, restored⟩
  have back : restoreTail c middle = .ok () (middle.setTail c.tail c.tail_lt) := rfl
  rw [cqPeekN, Prog.bind_of_ok (Prog.get_apply c), if_neg long, Prog.bind_of_ok ran]
  dsimp only
  rw [Prog.bind_of_ok back, Prog.bind_of_ok (Prog.get_apply _),
    Prog.bind_of_ok (Prog.assertThat_of _ _ same)]
  rfl

end Tracks

end Cs140e.Libpi.Circular
