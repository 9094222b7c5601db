import Cs140e.Libpi.CircularQueue

/-!
# Pushing a block of bytes

`cq_push_n` first asks `cq_nspace` whether the block fits and then pushes its
bytes one by one.  `cq_nspace` counts the slot that always stays free, so the
two do not agree on a block that needs this slot as well.
-/

namespace Cs140e.Libpi.Circular

open Cs140e.Library
open Cs140e.Library.Ring

variable {N : Nat}

/-- The calls after which a block may be pushed. -/
inductive Call where
  | single (op : Op Cqe)
  | pushN (data : List Cqe)

def callStep : Call → Prog (Cq N) (Reply Cqe)
  | .single op => cqStep op
  | .pushN data => do
      let yes ← cqPushN data
      pure (.accepted yes)

/-- What `cq_push_n` does to a queue, by the size of the block. -/
inductive Pushed (data : List Cqe) (c : Cq N) (queue : List Cqe) : Outcome (Cq N) Bool → Prop where
  | whole {after : Cq N} (fits : data.length < cqNspace c) (kept : Holds after (queue ++ data)) :
      Pushed data c queue (.ok true after)
  | refused (exceeds : cqNspace c < data.length) : Pushed data c queue (.ok false c)
  | broken {after : Cq N} (exact : data.length = cqNspace c) :
      Pushed data c queue (.error (.panic "not handling this\n") after)

theorem cqPushN_pushed (size : RingSize N) (data : List Cqe) {c : Cq N} {queue : List Cqe}
    (holds : Holds c queue) : Pushed data c queue (cqPushN data c) := by
  obtain ⟨history, popped, tracks, rfl⟩ := holds
  have le := tracks.window.popped_le
  have fits := tracks.window.fits
  have space : cqNspace c = N - (history.length - popped) := by
    rw [cqNspace, tracks.nelem_eq size]
  rcases Nat.lt_trichotomy data.length (cqNspace c) with below | exact | above
  · obtain ⟨after, ran, kept⟩ := tracks.cqPushN_ok size data (by omega)
    rw [ran]
    refine .whole below ⟨_, _, kept, ?_⟩
    rw [List.drop_append_of_le_length le]
  · obtain ⟨after, ran⟩ := tracks.cqPushN_overflow size data (by omega)
    rw [ran]
    exact .broken exact
  · rw [tracks.cqPushN_refused size data (by omega)]
    exact .refused above

theorem Holds.contents_eq (size : RingSize N) {c : Cq N} {queue : List Cqe}
    (holds : Holds c queue) : cqContents c = queue := by
  obtain ⟨history, popped, tracks, rfl⟩ := holds
  exact tracks.contents_eq size

/-- Every call that returns leaves a queue of bytes. -/
theorem callStep_keeps (size : RingSize N) (call : Call) {c after : Cq N} {reply : Reply Cqe}
    (holds : ∃ queue, Holds c queue) (returned : callStep call c = .ok reply after) :
    ∃ queue, Holds after queue := by
  obtain ⟨queue, holds⟩ := holds
  cases call with
  | single op =>
      have agree := cqStep_agrees size op holds
      rw [show cqStep op c = .ok reply after from returned] at agree
      obtain ⟨queue, _, kept⟩ := agree.right_of_ok
      exact ⟨queue, kept⟩
  | pushN data =>
      obtain ⟨yes, middle, pushed, rest⟩ := Prog.ok_of_bind_ok returned
      cases rest
      have outcome := cqPushN_pushed size data holds
      rw [pushed] at outcome
      cases outcome with
      | whole _ kept => exact ⟨_, kept⟩
      | refused => exact ⟨queue, holds⟩

/-- Either the whole block is appended, or nothing happens. -/
def AllOrNothing (data : List Cqe) (c : Cq N) : Prop :=
  (∃ after, cqPushN data c = .ok true after ∧ cqContents after = cqContents c ++ data) ∨
    cqPushN data c = .ok false c

/-- In every queue that calls can lead to, pushing a block is all or nothing
unless the block is exactly as long as `cq_nspace` says. -/
theorem cq_push_n_all_or_nothing_iff (size : RingSize N) (positive : 0 < N) (errorsFatalP : Bool)
    {start c : Cq N} (init : cqInit positive errorsFatalP = .ok () start) {calls : List Call}
    {replies : List (Reply Cqe)} (run : calls.mapM callStep start = .ok replies c)
    (data : List Cqe) : AllOrNothing data c ↔ data.length ≠ cqNspace c := by
  rw [cqInit_ok size positive errorsFatalP] at init
  cases init
  obtain ⟨queue, holds⟩ := mapM_keeps (fun c => ∃ queue, Holds c queue)
    (fun call _ _ _ => callStep_keeps size call) calls _ ⟨[], Holds.zeroed positive errorsFatalP⟩
    replies c run
  have outcome := cqPushN_pushed size data holds
  rw [AllOrNothing, holds.contents_eq size]
  generalize cqPushN data c = outcome' at outcome
  cases outcome with
  | whole fits kept =>
      exact ⟨fun _ => Nat.ne_of_lt fits, fun _ => .inl ⟨_, rfl, kept.contents_eq size⟩⟩
  | refused exceeds => exact ⟨fun _ => Nat.ne_of_gt exceeds, fun _ => .inr rfl⟩
  | broken exact =>
      refine ⟨?_, fun differs => absurd exact differs⟩
      rintro (⟨_, returned, _⟩ | returned)
      · cases returned
      · cases returned

theorem cq_push_n_all_or_nothing_iff_of_room :
    ∃ start replies c,
      cqInit (N := 4) (by decide) true = .ok () start ∧
      [.pushN [1, 2, 3], .single .pop].mapM callStep start = .ok replies c ∧
      AllOrNothing [4] c := by
  have size : RingSize 4 := ⟨2, by decide, by decide, rfl⟩
  have init := cqInit_ok size (by decide) true
  have counted : (returned? (([.pushN [1, 2, 3], .single .pop].mapM callStep >>= fun _ => get)
      (Cq.zeroed (N := 4) (by decide) true))).map cqNspace = some 2 := by decide
  cases run : [.pushN [1, 2, 3], .single .pop].mapM callStep
      (Cq.zeroed (N := 4) (by decide) true) with
  | ok replies c =>
      rw [Prog.bind_of_ok run] at counted
      have space : cqNspace c = 2 := Option.some.inj counted
      refine ⟨_, replies, c, init, run, ?_⟩
      refine (cq_push_n_all_or_nothing_iff size (by decide) true init run [4]).mpr ?_
      rw [space]
      decide
  | error stop after =>
      rw [Prog.bind_of_error run] at counted
      cases counted

/-- An empty ring of four slots takes three bytes of four and panics. -/
theorem cq_push_n_breaks_block :
    cqInit (N := 4) (by decide) true = .ok () (Cq.zeroed (by decide) true) ∧
      ¬ AllOrNothing [1, 2, 3, 4] (Cq.zeroed (N := 4) (by decide) true) := by
  refine ⟨cqInit_ok ⟨2, by decide, by decide, rfl⟩ (by decide) true, ?_⟩
  have stopped : returned? (cqPushN [1, 2, 3, 4] (Cq.zeroed (N := 4) (by decide) true)) = none := by
    decide
  rintro (⟨_, returned, _⟩ | returned)
  · rw [returned] at stopped
    cases stopped
  · rw [returned] at stopped
    cases stopped

end Cs140e.Libpi.Circular
