import Cs140e.Libpi.CircularHistory

/-!
# The circular queue is a bounded FIFO queue

Runs of the queue operations, none of them interrupted, are compared with the
same runs on a list that may hold `CQ_N - 1` bytes.
-/

namespace Cs140e.Libpi.Circular

open Cs140e.Library
open Cs140e.Library.Ring

variable {N : Nat}

/-- One call on the queue, with the reply its caller sees. -/
def cqStep : Op Cqe → Prog (Cq N) (Reply Cqe)
  | .push x => do
      let yes ← cqPush x
      pure (.accepted yes)
  | .pop => do
      let found ← cqPopNonblock
      pure (.item found)
  | .peek => do
      let found ← cqPeek
      pure (.item found)
  | .popN n => do
      let found ← cqPopNNoblk n
      pure (.items found)
  | .peekN n => do
      let found ← cqPeekN n
      pure (.items found)

/-- The list of bytes a queue holds, oldest first. -/
def Holds (c : Cq N) (queue : List Cqe) : Prop :=
  ∃ history popped, Tracks c history popped ∧ queue = history.drop popped

namespace Holds

variable {c : Cq N} {queue : List Cqe}

theorem zeroed (positive : 0 < N) (errorsFatalP : Bool) :
    Holds (Cq.zeroed positive errorsFatalP) [] :=
  ⟨[], 0, Tracks.zeroed positive errorsFatalP, rfl⟩

theorem nelem_eq (size : RingSize N) (holds : Holds c queue) : cqNelem c = queue.length := by
  obtain ⟨history, popped, tracks, rfl⟩ := holds
  rw [tracks.nelem_eq size, List.length_drop]

theorem empty_iff (holds : Holds c queue) : cqEmpty c = true ↔ queue = [] := by
  obtain ⟨history, popped, tracks, rfl⟩ := holds
  rw [tracks.empty_iff, List.drop_eq_nil_iff]
  have := tracks.window.popped_le
  omega

theorem full_iff (size : RingSize N) (holds : Holds c queue) :
    cqFull c = true ↔ queue.length = N - 1 := by
  obtain ⟨history, popped, tracks, rfl⟩ := holds
  rw [tracks.full_iff size, List.length_drop]
  have := tracks.window.popped_le
  have := size.two_le
  omega

end Holds

/-- One call agrees with its effect on the list of queued bytes. -/
theorem cqStep_agrees (size : RingSize N) (op : Op Cqe) {c : Cq N} {queue : List Cqe}
    (holds : Holds c queue) :
    Agree Holds (cqStep op c) (queueStep (N - 1) op queue) := by
  obtain ⟨history, popped, tracks, rfl⟩ := holds
  have le := tracks.window.popped_le
  have lengthEq : (history.drop popped).length = history.length - popped := List.length_drop
  have two := size.two_le
  cases op with
  | push x =>
      by_cases room : history.length + 1 < popped + N
      · obtain ⟨after, ran, kept⟩ := tracks.cqPush_ok size room x
        rw [cqStep, Prog.bind_of_ok ran, queueStep, if_pos (by omega)]
        refine .returned _ ⟨_, _, kept, ?_⟩
        rw [List.drop_append_of_le_length le]
      · have full : history.length + 1 = popped + N := by have := tracks.window.fits; omega
        rw [cqStep, Prog.bind_of_ok (tracks.cqPush_full size full x), queueStep,
          if_neg (by omega)]
        exact .returned _ ⟨_, _, tracks, rfl⟩
  | pop =>
      by_cases nonempty : popped < history.length
      · obtain ⟨after, ran, kept⟩ := tracks.cqPopNonblock_some size nonempty
        rw [cqStep, Prog.bind_of_ok ran, queueStep, List.head?_drop, List.tail_drop]
        exact .returned _ ⟨_, _, kept, rfl⟩
      · have empty : history.length = popped := by omega
        rw [cqStep, Prog.bind_of_ok (tracks.cqPopNonblock_none empty), queueStep,
          List.drop_of_length_le (Nat.le_of_eq empty)]
        exact .returned _ ⟨_, _, tracks, (List.drop_of_length_le (Nat.le_of_eq empty)).symm⟩
  | peek =>
      rw [cqStep, Prog.bind_of_ok tracks.cqPeek_eq, queueStep, List.head?_drop]
      exact .returned _ ⟨_, _, tracks, rfl⟩
  | popN n =>
      by_cases enough : popped + n ≤ history.length
      · obtain ⟨after, ran, kept⟩ := tracks.cqPopNNoblk_some size enough
        rw [cqStep, Prog.bind_of_ok ran, queueStep, if_neg (by omega), List.drop_drop]
        exact .returned _ ⟨_, _, kept, rfl⟩
      · rw [cqStep, Prog.bind_of_ok (tracks.cqPopNNoblk_none size (by omega)), queueStep,
          if_pos (by omega)]
        exact .returned _ ⟨_, _, tracks, rfl⟩
  | peekN n =>
      by_cases enough : popped + n ≤ history.length
      · obtain ⟨after, ran, kept⟩ := tracks.cqPeekN_some size enough
        rw [cqStep, Prog.bind_of_ok ran, queueStep, if_neg (by omega)]
        exact .returned _ ⟨_, _, kept, rfl⟩
      · rw [cqStep, Prog.bind_of_ok (tracks.cqPeekN_none size (by omega)), queueStep,
          if_pos (by omega)]
        exact .returned _ ⟨_, _, tracks, rfl⟩

/-- The assertions of `cq_init` hold for every queue of at least two slots. -/
theorem cqInit_ok (size : RingSize N) (positive : 0 < N) (errorsFatalP : Bool) :
    cqInit positive errorsFatalP = .ok () (Cq.zeroed positive errorsFatalP) := by
  have holds := Holds.zeroed positive errorsFatalP
  have tracks := Tracks.zeroed positive errorsFatalP
  have empty : cqEmpty (Cq.zeroed positive errorsFatalP) = true := holds.empty_iff.mpr rfl
  have notFull : (!cqFull (Cq.zeroed positive errorsFatalP)) = true := by
    rw [Bool.not_eq_true', ← Bool.not_eq_true, holds.full_iff size]
    have := size.two_le
    simp only [List.length_nil]
    omega
  have none : (cqNelem (Cq.zeroed positive errorsFatalP) == 0) = true := by
    rw [beq_iff_eq, holds.nelem_eq size, List.length_nil]
  rw [cqInit, cqInitChecks, Prog.bind_of_ok (Prog.get_apply _),
    Prog.bind_of_ok (Prog.assertThat_of _ _ empty),
    Prog.bind_of_ok (Prog.assertThat_of _ _ notFull),
    Prog.bind_of_ok (Prog.assertThat_of _ _ none),
    Prog.bind_of_ok (tracks.cqPopNonblock_none rfl)]
  rfl

/-- From `cq_init` on, every sequence of calls gets the replies of a FIFO list
of at most `CQ_N - 1` bytes, and the three tests read that list's length. -/
theorem cq_run_refines_fifo (size : RingSize N) (positive : 0 < N) (errorsFatalP : Bool)
    (ops : List (Op Cqe)) :
    ∃ start replies c queue,
      cqInit positive errorsFatalP = .ok () start ∧
      ops.mapM cqStep start = .ok replies c ∧
      ops.mapM (queueStep (N - 1)) [] = .ok replies queue ∧
      queue.length ≤ N - 1 ∧
      cqNelem c = queue.length ∧
      (cqEmpty c = true ↔ queue = []) ∧
      (cqFull c = true ↔ queue.length = N - 1) := by
  have short : ([] : List Cqe).length ≤ N - 1 := Nat.zero_le _
  obtain ⟨replies, queue, abstractRun, bounded⟩ := queue_run_bounded (N - 1) ops short
  have agree := mapM_agree_always (fun op _ _ holds => cqStep_agrees size op holds) ops
    (Holds.zeroed positive errorsFatalP)
  rw [abstractRun] at agree
  obtain ⟨c, concreteRun, holds⟩ := agree.left_of_ok
  exact ⟨_, replies, c, queue, cqInit_ok size positive errorsFatalP, concreteRun, abstractRun,
    bounded, holds.nelem_eq size, holds.empty_iff, holds.full_iff size⟩

/-- A run over a ring of four slots that fills it, wraps around and overflows. -/
theorem cq_run_refines_fifo_four :
    ∃ start replies c queue,
      cqInit (N := 4) (by decide) true = .ok () start ∧
      [.push 1, .push 2, .pop, .push 3, .push 4, .push 5, .peekN 3].mapM cqStep start =
        .ok replies c ∧
      [.push 1, .push 2, .pop, .push 3, .push 4, .push 5, .peekN 3].mapM (queueStep 3) [] =
        .ok replies queue ∧
      queue.length ≤ 3 ∧
      cqNelem c = queue.length ∧
      (cqEmpty c = true ↔ queue = []) ∧
      (cqFull c = true ↔ queue.length = 3) :=
  cq_run_refines_fifo ⟨2, by decide, by decide, rfl⟩ (by decide) true _

end Cs140e.Libpi.Circular
