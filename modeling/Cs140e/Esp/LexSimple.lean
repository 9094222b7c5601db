import Cs140e.Library.Input
import Cs140e.Esp.Readin

/-!
# The lexer that keeps all input

However the device cuts its bytes into pieces and bursts, the program sees the
list of bytes it has not consumed, and a checkpoint gives back what was
consumed since.
-/

namespace Cs140e.Esp

open Cs140e.Library

/-- `unread` is what is left of the whole `input`: the bytes of the buffer from
`pos` on and those the device is going to send. -/
inductive At (input unread : List UInt8) (l : Lex LexSimple) : Prop where
  | intro (before buffered : List UInt8) (bufEq : l.buf = ⟨before.length, before ++ buffered⟩)
      (unreadEq : unread = buffered ++ arriving l.h) (inputEq : input = before ++ unread)
      (small : input.length < lexMaxbuf)

namespace LexSimple

/-- The buffer in which `buffered` comes after everything that was consumed. -/
def Holds (before : List UInt8) (buf : LexSimple) (buffered : List UInt8) : Prop :=
  buf = ⟨before.length, before ++ buffered⟩

theorem inBounds (before buffered : List UInt8) :
    decide (before.length ≤ LexSimple.n ⟨before.length, before ++ buffered⟩) = true := by
  rw [decide_eq_true_iff, LexSimple.n, List.length_append]
  exact Nat.le_add_right _ _

theorem storage (before : List UInt8) (small : before.length < lexMaxbuf) :
    Storage (Holds before) (lexMaxbuf - 1 - before.length) where
  nstream := by
    rintro buf bytes rfl
    change LexSimple.nstream _ = _
    rw [nstream, Prog.bind_of_ok (Prog.get_apply _),
      Prog.bind_of_ok (Prog.assertThat_of _ _ (inBounds before bytes)), LexSimple.n,
      List.length_append, Nat.add_sub_cancel_left]
    rfl
  pushN := by
    rintro buf bytes more rfl some fits
    refine ⟨⟨before.length, before ++ (bytes ++ more)⟩, ?_, rfl⟩
    have positive : decide (more.length > 0) = true := by
      rw [decide_eq_true_iff]
      exact List.length_pos_iff.mpr some
    have room : decide (LexSimple.n ⟨before.length, before ++ bytes⟩ + more.length < lexMaxbuf) =
        true := by
      rw [decide_eq_true_iff, LexSimple.n, List.length_append]
      omega
    change LexSimple.pushN more _ = _
    rw [pushN, Prog.bind_of_ok (Prog.assertThat_of _ _ positive),
      Prog.bind_of_ok (Prog.get_apply _), Prog.bind_of_ok (Prog.assertThat_of _ _ room),
      Prog.modify_apply, List.append_assoc]
  lexEmpty := by
    rintro buf bytes rfl
    change LexSimple.empty _ = _
    rw [empty, Prog.bind_of_ok (Prog.get_apply _),
      Prog.bind_of_ok (Prog.assertThat_of _ _ (inBounds before bytes)), LexSimple.n,
      List.length_append]
    cases bytes with
    | nil => rw [List.length_nil, Nat.add_zero, beq_self_eq_true]; rfl
    | cons c rest =>
        have differs : (before.length == before.length + (c :: rest).length) = false := by
          rw [beq_eq_false_iff_ne, List.length_cons]
          omega
        rw [differs]
        rfl

theorem current_eq (before : List UInt8) (c : UInt8) (rest : List UInt8) :
    current ⟨before.length, before ++ c :: rest⟩ = .ok c ⟨before.length, before ++ c :: rest⟩ := by
  rw [current, Prog.bind_of_ok (Prog.get_apply _)]
  have here : (before ++ c :: rest)[before.length]? = some c := by
    rw [List.getElem?_append_right (Nat.le_refl _), Nat.sub_self]
    rfl
  simp only [here]
  rfl

end LexSimple

namespace At

variable {input unread : List UInt8} {l : Lex LexSimple}

/-- Refilling makes the next byte available, or blocks when there is none. -/
theorem refill (here : At input unread l) :
    (unread = [] ∧ ∃ after, lexRefill l = .error .blocked after) ∨
      ∃ before c buffered h, lexRefill l = .ok () ⟨⟨before.length, before ++ c :: buffered⟩, h⟩ ∧
        unread = c :: (buffered ++ arriving h) ∧ input = before ++ unread ∧
        input.length < lexMaxbuf := by
  obtain ⟨buf, h⟩ := l
  obtain ⟨before, buffered, rfl, unreadEq, inputEq, small⟩ := here
  have lengths : input.length = before.length + (buffered.length + (arriving h).length) := by
    rw [inputEq, unreadEq, List.length_append, List.length_append]
  have storage := LexSimple.storage before (by omega)
  cases buffered with
  | cons c buffered =>
      have kept : LexSimple.Holds before ⟨before.length, before ++ c :: buffered⟩ (c :: buffered) :=
        rfl
      exact .inr ⟨before, c, buffered, h,
        lexRefill_nonempty storage kept (List.cons_ne_nil _ _), unreadEq, inputEq, small⟩
  | nil =>
      cases data : skipQuiet? h with
      | none =>
          refine .inl ⟨?_, _, lexRefill_blocked storage rfl data⟩
          rw [unreadEq, List.nil_append]
          exact arriving_of_skipQuiet_none data
      | some rest =>
          have bytes := (arriving_burst rest).trans (arriving_skipQuiet data)
          have fits : (burst rest).1.length ≤ lexMaxbuf - 1 - before.length := by
            have := congrArg List.length bytes
            rw [List.length_append] at this
            rw [List.length_nil] at lengths
            omega
          obtain ⟨after, ran, holds⟩ := lexRefill_ok storage rfl data fits
          rw [LexSimple.Holds] at holds
          subst holds
          cases read : (burst rest).1 with
          | nil => exact absurd read (burst_ne_nil data)
          | cons c buffered =>
              rw [read] at ran bytes
              refine .inr ⟨before, c, buffered, (burst rest).2, ran, ?_, inputEq, small⟩
              rw [unreadEq, List.nil_append, ← bytes, List.cons_append]

theorem getc (here : At input unread l) :
    Agree (At input) (Input.next unread) (lexGetc l) := by
  change Agree (At input) _ (LexSimple.getc l)
  rw [LexSimple.getc]
  rcases here.refill with ⟨rfl, after, stopped⟩ | ⟨before, c, buffered, h, ran, rfl, inputEq,
    small⟩
  · rw [Prog.bind_of_error stopped]
    exact .stopped _ _ _
  · rw [Prog.bind_of_ok ran,
      Prog.bind_of_ok (onBuf_of_ok (LexSimple.current_eq before c buffered) h)]
    refine .returned c ⟨before ++ [c], buffered, ?_, rfl, ?_, small⟩
    · change LexSimple.mk _ _ = _
      rw [List.length_append, List.append_assoc]
      rfl
    · rw [inputEq, List.append_assoc]
      rfl

theorem peek (here : At input unread l) :
    Agree (At input) (Input.front unread) (lexPeek l) := by
  change Agree (At input) _ (LexSimple.peek l)
  rw [LexSimple.peek]
  rcases here.refill with ⟨rfl, after, stopped⟩ | ⟨before, c, buffered, h, ran, rfl, inputEq,
    small⟩
  · rw [Prog.bind_of_error stopped]
    exact .stopped _ _ _
  · rw [Prog.bind_of_ok ran, onBuf_of_ok (LexSimple.current_eq before c buffered) h]
    exact .returned c ⟨before, c :: buffered, rfl, rfl, inputEq, small⟩

/-- The number of buffered bytes depends on how the input was cut. -/
theorem nstream (here : At input unread l) :
    ∃ buffered, lexNstream l = .ok buffered.length l ∧ buffered <+: unread := by
  obtain ⟨buf, h⟩ := l
  obtain ⟨before, buffered, rfl, unreadEq, inputEq, small⟩ := here
  have storage := LexSimple.storage before (by
    rw [inputEq, List.length_append] at small
    omega)
  exact ⟨buffered, onBuf_of_ok (storage.nstream rfl) h, ⟨_, unreadEq.symm⟩⟩

theorem getCkpt (l : Lex LexSimple) : lexGetCkpt l = .ok l.buf.pos l := rfl

/-- Going back to an earlier checkpoint gives back what was consumed since. -/
theorem restoreCkpt (here : At input unread l) {later : List UInt8} {now : Lex LexSimple}
    (there : At input later now) (consumed : later <:+ unread) :
    ∃ after, lexRestoreCkpt l.buf.pos now = .ok () after ∧ At input unread after := by
  obtain ⟨buf, h⟩ := l
  obtain ⟨bufNow, hNow⟩ := now
  obtain ⟨before, buffered, rfl, unreadEq, inputEq, small⟩ := here
  obtain ⟨beforeNow, bufferedNow, rfl, laterEq, inputEqNow, _⟩ := there
  obtain ⟨between, rfl⟩ := consumed
  have split : beforeNow = before ++ between := by
    rw [inputEqNow, ← List.append_assoc] at inputEq
    exact List.append_cancel_right inputEq
  refine ⟨⟨⟨before.length, beforeNow ++ bufferedNow⟩, hNow⟩, rfl,
    ⟨before, between ++ bufferedNow, ?_, ?_, inputEq, small⟩⟩
  · rw [split, List.append_assoc]
  · dsimp only at laterEq
    rw [laterEq, List.append_assoc]

/-- The start of a program on any input. -/
theorem init {h : List Poll} (small : (arriving h).length < lexMaxbuf) :
    At (arriving h) (arriving h) ⟨LexSimple.init, h⟩ :=
  ⟨[], [], rfl, rfl, rfl, small⟩

end At

end Cs140e.Esp
