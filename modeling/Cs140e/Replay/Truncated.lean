import Cs140e.Replay.Parsing

/-!
# Logs that are cut short

`read_ent_op` does not look whether `log_read_ent` has found an entry.  So a log
that ends inside of a word of `parse_trace` is not reported: the bytes that are
missing are taken from variables that nothing has set.
-/

namespace Cs140e.Replay.PrettyPrint

open Cs140e.Library
open Cs140e.Library.LittleEndian
open Cs140e.Bootloader

/-- What one side logs for the `op` of a message, and its sender for the body. -/
def Logged (message : Message) (ents : List LogEnt) : Prop :=
  ∃ op, ents = sent op (bytesOf message.op) ++ sent message.sender message.body

/-- An error is reported, or messages are returned whose bytes are, behind
garbage of the pi, the entries of the log line by line. -/
def Reported (content : List UInt8) (outcome : Outcome LogT (List Msg × Nat)) : Prop :=
  (∃ message, stopped? outcome = some (.panic message)) ∨
    ∃ garbage pieces messages, Lines content (sent piOutput garbage ++ pieces.flatten) true ∧
      List.Forall₂ Logged messages pieces ∧ Inverts messages outcome

/-- The lines of the log end inside of a word, or behind the `PUT_CODE` of a buffer
without a byte there is another line. -/
def CutInWord (content : List UInt8) : Prop :=
  ∃ ents complete, Lines content ents complete ∧ Misreads complete ents

theorem Spells.logged {complete : Bool} {known : UInt32} {ents : List LogEnt}
    {messages : List Message} (spells : Spells complete known ents messages) :
    ∃ pieces, ents = pieces.flatten ∧ List.Forall₂ Logged messages pieces := by
  induction spells with
  | done => exact ⟨[], rfl, .nil⟩
  | more follows op rest ih =>
      obtain ⟨pieces, rfl, logged⟩ := ih
      refine ⟨_ :: pieces, ?_, .cons ⟨op, rfl⟩ logged⟩
      rw [List.flatten_cons, List.append_assoc]

/-- Every log is reported or decoded from its lines, if it is not cut inside of a word. -/
theorem parse_trace_reports_iff {content log : List UInt8} {nbytes : UInt32}
    (held : content <+: log) (size : nbytes.toNat = content.length) (lineno : UInt32) :
    Reported content (parseTrace ⟨log, nbytes, 0, lineno⟩) ↔ ¬ CutInWord content := by
  have start := At.start size held lineno
  constructor
  · rintro reported ⟨ents, complete, lines, misreads⟩
    obtain ⟨what, after, ran⟩ := (parseTrace_reading ⟨content, start, lines⟩).starves misreads
    rw [ran] at reported
    obtain ⟨message, same⟩ | ⟨_, _, _, _, _, _, _, same, _⟩ := reported
    · cases same
    · cases same
  · intro uncut
    obtain ⟨ents, complete, lines⟩ := exists_lines content
    have unread : Unread content complete ⟨log, nbytes, 0, lineno⟩ ents := ⟨content, start, lines⟩
    by_cases some : ∃ garbage messages, Decodes complete ents garbage messages
    · obtain ⟨garbage, messages, left, begins, spells⟩ := some
      obtain ⟨pieces, flat, logged⟩ := spells.logged
      have split := begins.2.1
      cases spells.whole
      refine .inr ⟨garbage, pieces, messages, ?_, logged,
        parseTrace_decodes unread ⟨left, begins, spells⟩⟩
      rwa [← flat, ← split]
    · obtain ⟨message, after, ran⟩ := (parseTrace_reading unread).reports
        (fun _ _ ⟨_, garbage, messages, both⟩ => some ⟨garbage, messages, both.1⟩)
        (fun misreads => uncut ⟨ents, complete, lines, misreads⟩)
      rw [ran]
      exact .inl ⟨message, rfl⟩

/-- The lines of a `GET_PROG_INFO` and half a line. -/
def halfLine : List UInt8 := lines piOutput (bytesOf getProgInfo) ++ [unixOutput, 44, 48]

theorem parse_trace_reports_iff_of_halfLine :
    (∃ message, stopped? (parseTrace ⟨halfLine, 31, 0, 1⟩) = some (.panic message)) ∧
      ¬ CutInWord halfLine := by
  have reported : stopped? (parseTrace ⟨halfLine, 31, 0, 1⟩) =
      some (.panic "l->off < l->nbytes") := by
    decide +kernel
  have size : (31 : UInt32).toNat = halfLine.length := rfl
  exact ⟨⟨_, reported⟩,
    (parse_trace_reports_iff (List.prefix_refl _) size 1).mp (.inl ⟨_, reported⟩)⟩

/-- The lines of a `GET_PROG_INFO` and of half a word. -/
def halfWord : List UInt8 :=
  lines piOutput (bytesOf getProgInfo) ++ lines unixOutput ((bytesOf putProgInfo).take 2)

theorem half_word_is_made_up :
    stopped? (parseTrace ⟨halfWord, 42, 0, 1⟩) = some (.undefined "op and v are not set") ∧
      ¬ Reported halfWord (parseTrace ⟨halfWord, 42, 0, 1⟩) := by
  have unset : stopped? (parseTrace ⟨halfWord, 42, 0, 1⟩) =
      some (.undefined "op and v are not set") := by
    decide +kernel
  refine ⟨unset, ?_⟩
  rintro (⟨message, same⟩ | ⟨_, _, _, _, _, _, _, same, _⟩)
  · rw [unset] at same
    cases same
  · rw [same] at unset
    cases unset

end Cs140e.Replay.PrettyPrint
