import Cs140e.Esp.RunOnText

/-!
# Commands and the arrival of the bytes

With the lexer that keeps all input `cmd_ack` and `cmd_response` do the same
thing however the bytes of the esp are cut.  The runs may differ in how many
ends of lines they have taken, and in nothing that matters to a later command.
-/

namespace Cs140e.Esp

open Cs140e.Library
open Text (dropWs dropBlankLines)

variable {γ : Type}

/-- Both runs have kept track of their input and stand in front of the same
line, or of blank lines before it. -/
structure SameText (first second : EspT LexSimple γ) : Prop where
  left : ∃ input, OnInput input first
  right : ∃ input, OnInput input second
  same : nextText first = nextText second

theorem SameText.of_afterLine {input other rest : List UInt8} {value : Bool}
    {first second : EspT LexSimple γ} (left : AfterLine input value rest first.l)
    (right : AfterLine other value rest second.l) : SameText first second where
  left := ⟨input, left.atEol.self⟩
  right := ⟨other, right.atEol.self⟩
  same := left.atEol.dropBlankLines_unread.trans right.atEol.dropBlankLines_unread.symm

/-- Two loops that refine one loop on the text do the same. -/
theorem repeatUntil_ignores_chunking {inv other : EspT LexSimple γ → Prop}
    (input input' : List UInt8) {ideal : Prog (List UInt8) (Option Bool)}
    {body : Prog (EspT LexSimple γ) (Option Bool)} {first second : EspT LexSimple γ}
    {fuel fuel' : Nat}
    (left : ∀ e, inv e → RoundSimulates inv (fun e => e.l.unread.length) nextText
      (fun value rest after => AfterLine input value rest after.l) ideal body e)
    (right : ∀ e, other e → RoundSimulates other (fun e => e.l.unread.length) nextText
      (fun value rest after => AfterLine input' value rest after.l) ideal body e)
    (here : inv first) (there : other second) (same : nextText first = nextText second)
    (enough : first.l.unread.length < fuel) (enough' : second.l.unread.length < fuel') :
    Agree SameText (Prog.repeatUntil body fuel first) (Prog.repeatUntil body fuel' second) := by
  obtain ⟨outcome, loops, agree⟩ := repeatUntil_simulates left fuel first here enough
  obtain ⟨outcome', loops', agree'⟩ := repeatUntil_simulates right fuel' second there enough'
  rw [← same] at loops'
  rw [← loops.unique loops'] at agree'
  exact (agree.join agree').mono fun _ _ _ ⟨_, after, after'⟩ => .of_afterLine after after'

theorem cmdAck_ignores_chunking {fuel fuel' : Nat} (cmd : List UInt8)
    {first second : EspT LexSimple γ} (start : SameText first second)
    (inactive : first.activeP = false) (inactive' : second.activeP = false)
    (enough : first.l.unread.length < fuel) (enough' : second.l.unread.length < fuel') :
    Agree SameText (cmdAck fuel defaultHandleOutOfOrderMsg cmd first)
      (cmdAck fuel' defaultHandleOutOfOrderMsg cmd second) := by
  obtain ⟨⟨input, here⟩, ⟨input', there⟩, same⟩ := start
  exact repeatUntil_ignores_chunking input input'
    (fun _ => ackRound_simulates cmd) (fun _ => ackRound_simulates cmd) ⟨here, inactive⟩
    ⟨there, inactive'⟩ same enough enough'

theorem cmdResponse_ignores_chunking {fuel fuel' : Nat} (endString : List UInt8)
    (canFailP extraP : Bool) {first second : EspT LexSimple γ} (start : SameText first second)
    (enough : first.l.unread.length < fuel) (enough' : second.l.unread.length < fuel') :
    Agree SameText (cmdResponse fuel endString canFailP extraP first)
      (cmdResponse fuel' endString canFailP extraP second) := by
  obtain ⟨⟨input, here⟩, ⟨input', there⟩, same⟩ := start
  exact repeatUntil_ignores_chunking input input'
    (fun _ => responseRound_simulates endString canFailP extraP)
    (fun _ => responseRound_simulates endString canFailP extraP) here there same enough enough'

/-- Two devices that send the same bytes to a program that has read nothing yet. -/
theorem SameText.of_arriving (h h' : List Poll) (same : arriving h = arriving h')
    (small : (arriving h).length < lexMaxbuf) {first second : EspT LexSimple γ}
    (left : first.l = ⟨LexSimple.init, h⟩) (right : second.l = ⟨LexSimple.init, h'⟩) :
    SameText first second where
  left := ⟨arriving h, by rw [OnInput, left]; exact (At.init small).self⟩
  right := ⟨arriving h', by
    rw [OnInput, right]
    exact (At.init (by rw [← same]; exact small)).self⟩
  same := by
    have unread : first.l.unread = arriving h := by
      rw [left]
      exact (At.init small).unread_eq
    have unread' : second.l.unread = arriving h' := by
      rw [right]
      exact (At.init (by rw [← same]; exact small)).unread_eq
    rw [nextText, nextText, unread, unread', same]

/-- `cmd_ack` and `cmd_response` return the same value, panic or wait alike and
leave the same text behind, however the bytes are cut. -/
theorem commands_ignore_chunking {first second : EspT LexSimple γ}
    (start : SameText first second) {fuel fuel' : Nat} (enough : first.l.unread.length < fuel)
    (enough' : second.l.unread.length < fuel') :
    (first.activeP = false → second.activeP = false → ∀ cmd,
      Agree (fun after after' => SameText after after' ∧
          dropWs after.l.unread = dropWs after'.l.unread)
        (cmdAck fuel defaultHandleOutOfOrderMsg cmd first)
        (cmdAck fuel' defaultHandleOutOfOrderMsg cmd second)) ∧
      ∀ endString canFailP extraP,
        Agree (fun after after' => SameText after after' ∧
            dropWs after.l.unread = dropWs after'.l.unread)
          (cmdResponse fuel endString canFailP extraP first)
          (cmdResponse fuel' endString canFailP extraP second) := by
  have weaken : ∀ after after' : EspT LexSimple γ, SameText after after' →
      SameText after after' ∧ dropWs after.l.unread = dropWs after'.l.unread := by
    intro after after' same
    have texts := congrArg dropWs same.same
    rw [nextText, nextText, Text.dropWs_dropBlankLines, Text.dropWs_dropBlankLines] at texts
    exact ⟨same, texts⟩
  constructor
  · intro inactive inactive' cmd
    exact (cmdAck_ignores_chunking cmd start inactive inactive' enough enough').mono
      fun _ => weaken
  · intro endString canFailP extraP
    exact (cmdResponse_ignores_chunking endString canFailP extraP start enough enough').mono
      fun _ => weaken

/-- An echo and a response, the end of the echo cut in two. -/
def echoCut : List Poll :=
  [.data ⟨ascii "AT\r", by decide, by decide⟩, .quiet,
    .data ⟨ascii "\n\r\nOK\r\n", by decide, by decide⟩]

/-- The same bytes in one piece. -/
def echoWhole : List Poll := [.data ⟨ascii "AT\r\n\r\nOK\r\n", by decide, by decide⟩]

theorem commands_ignore_chunking_of_cut :
    Agree (fun after after' => SameText after after' ∧
        dropWs after.l.unread = dropWs after'.l.unread)
      (cmdAck 11 defaultHandleOutOfOrderMsg (ascii "AT")
        ⟨⟨LexSimple.init, echoCut⟩, false, (), [], [], []⟩)
      (cmdAck 11 defaultHandleOutOfOrderMsg (ascii "AT")
        ⟨⟨LexSimple.init, echoWhole⟩, false, (), [], [], []⟩) :=
  (commands_ignore_chunking (.of_arriving echoCut echoWhole rfl (by decide) rfl rfl)
    (by decide) (by decide)).1 rfl rfl (ascii "AT")

end Cs140e.Esp
