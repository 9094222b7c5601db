import Cs140e.Esp.Lines
import Cs140e.Esp.RunOnText

/-!
# The line that decides a response

A stream of lines answers a command by its first line that is the expected
end, an error or, unless extra output is allowed, anything else but a busy
message.
-/

namespace Cs140e.Esp

open Cs140e.Library
open Text (Literal MatchesLine ProperPrefix dropBlankLines dropBlanks startsWithTok strip)

/-! ## Busy messages -/

/-- The messages that `match_busy` looks for. -/
def busyMessages : List (List UInt8) := [ascii "busy s...", ascii "busy p..."]

def Line.Busy (line : Line) : Prop := ∃ message ∈ busyMessages, strip message = strip line.text

instance (line : Line) : Decidable line.Busy :=
  inferInstanceAs (Decidable (∃ message ∈ busyMessages, _))

theorem literal_busy_s : Literal (ascii "busy s...") := ⟨by decide, by decide⟩

theorem literal_busy_p : Literal (ascii "busy p...") := ⟨by decide, by decide⟩

/-- What `match_busy` does in front of a line. -/
inductive MatchesBusy (line : Line) (rest : List UInt8) : Outcome (List UInt8) Bool → Prop where
  | whole (busy : line.Busy) : MatchesBusy line rest (.ok true (line.left ++ rest))
  | longer {message after : List UInt8} (busy : message ∈ busyMessages)
      (goesOn : ProperPrefix (strip message) (strip line.text)) :
      MatchesBusy line rest (.error (.panic "did not match end of line\n") after)
  | other (differs : ∀ message ∈ busyMessages, ¬ strip message <+: strip line.text) :
      MatchesBusy line rest (.ok false (line.bytes ++ rest))

theorem matchLineOnly_bytes {fmt : List UInt8} (literal : Literal fmt) {line : Line}
    (nonblank : ¬ line.Blank) (rest : List UInt8) :
    ∃ e, line.bytes ++ rest = line.text ++ e :: (line.left ++ rest) ∧
      MatchesLine fmt line.text e (line.left ++ rest)
        (Text.matchLineOnly fmt (line.bytes ++ rest)) := by
  obtain ⟨e, eol, split⟩ := line.bytes_append rest
  refine ⟨e, split, ?_⟩
  rw [split]
  exact Text.matchLineOnly_line literal eol line.onLine nonblank

theorem matchBusy_line {line : Line} (nonblank : ¬ line.Blank) (rest : List UInt8) :
    MatchesBusy line rest (Text.matchBusy (line.bytes ++ rest)) := by
  obtain ⟨e, split, first⟩ := matchLineOnly_bytes literal_busy_s nonblank rest
  generalize ran : Text.matchLineOnly (ascii "busy s...") (line.bytes ++ rest) = outcome at first
  cases first with
  | whole same =>
      rw [Text.matchBusy, Esp.either, Prog.bind_of_ok ran]
      exact .whole ⟨_, List.mem_cons_self, same⟩
  | longer goesOn =>
      rw [Text.matchBusy, Esp.either, Prog.bind_of_error ran]
      exact .longer List.mem_cons_self goesOn
  | other differs =>
      rw [← split] at ran
      rw [Text.matchBusy, Esp.either, Prog.bind_of_ok ran, if_neg Bool.false_ne_true]
      have isLast : ascii "busy p..." ∈ busyMessages := List.mem_cons_of_mem _ List.mem_cons_self
      obtain ⟨e', split', second⟩ := matchLineOnly_bytes literal_busy_p nonblank rest
      generalize Text.matchLineOnly (ascii "busy p...") (line.bytes ++ rest) = outcome at second
      cases second with
      | whole same => exact .whole ⟨_, isLast, same⟩
      | longer goesOn => exact .longer isLast goesOn
      | other differs' =>
          rw [← split']
          refine .other fun message mem => ?_
          rcases List.mem_pair.mp mem with rfl | rfl
          · exact differs
          · exact differs'

/-! ## Kinds of lines -/

inductive LineKind where
  | blank
  | endLine
  | error
  | busy
  | other
  deriving DecidableEq, Repr

/-- What a line is to a command that waits for `endString`. -/
def Line.kind (endString : List UInt8) (line : Line) : LineKind :=
  if line.Blank then .blank
  else if strip endString = strip line.text then .endLine
  else if startsWithTok (ascii "ERROR") line.text then .error
  else if line.Busy then .busy
  else .other

/-- What `match_tok` leaves of an error line. -/
def Line.afterError (line : Line) : List UInt8 :=
  (dropBlanks line.text).drop (ascii "ERROR").length ++ line.ending

/-- No pattern of the response goes on after its end on this line. -/
def Line.Clear (endString : List UInt8) (line : Line) : Prop :=
  ∀ message ∈ endString :: busyMessages, ¬ ProperPrefix (strip message) (strip line.text)

instance (endString : List UInt8) (line : Line) : Decidable (line.Clear endString) :=
  inferInstanceAs (Decidable (∀ message ∈ endString :: busyMessages, _))

/-- What a round of `cmd_response` does with a line that is not blank. -/
inductive LineRound (canFailP extraP : Bool) (line : Line) (rest : List UInt8) :
    LineKind → Outcome (List UInt8) (Option Bool) → Prop where
  | ended : LineRound canFailP extraP line rest .endLine (.ok (some true) (line.left ++ rest))
  | failed (can : canFailP = true) :
      LineRound canFailP extraP line rest .error (.ok (some false) (line.afterError ++ rest))
  | fatal {message : String} {after : List UInt8} (cannot : canFailP = false) :
      LineRound canFailP extraP line rest .error (.error (.panic message) after)
  | busy : LineRound canFailP extraP line rest .busy (.ok none (dropBlankLines rest))
  | skipped (extra : extraP = true) :
      LineRound canFailP extraP line rest .other (.ok none (dropBlankLines rest))
  | refused {message : String} {after : List UInt8} (noExtra : extraP = false) :
      LineRound canFailP extraP line rest .other (.error (.panic message) after)

theorem getNonblankLine_bytes {line : Line} (nonblank : ¬ line.Blank) (rest : List UInt8) :
    ∃ result, Text.getNonblankLine lineBuf 1024 (line.bytes ++ rest) =
      .ok result (line.left ++ rest) := by
  obtain ⟨e, eol, split⟩ := line.bytes_append rest
  rw [split]
  have short := Nat.lt_of_le_of_lt (Text.trim_length_le line.text) line.short
  refine ⟨_, Text.getNonblankLine_line eol line.onLine nonblank short ?_⟩
  rw [lineBuf, List.length_replicate]
  exact short

theorem takeLine_bytes {line : Line} (nonblank : ¬ line.Blank) (rest : List UInt8) :
    Text.takeLine (line.bytes ++ rest) = .ok () (line.left ++ rest) := by
  obtain ⟨result, taken⟩ := getNonblankLine_bytes nonblank rest
  rw [Text.takeLine, Prog.bind_of_ok taken]
  rfl

theorem skipExtra_refuses {line : Line} (nonblank : ¬ line.Blank) (rest : List UInt8) :
    ∃ message after, Text.skipExtra false (line.bytes ++ rest) =
      .error (.panic message) after := by
  obtain ⟨⟨n, buf⟩, taken⟩ := getNonblankLine_bytes nonblank rest
  rw [Text.skipExtra, if_neg Bool.false_ne_true, Prog.bind_of_ok taken]
  dsimp only
  split
  · exact ⟨_, _, rfl⟩
  · exact ⟨_, _, rfl⟩

theorem nextLine_left (line : Line) (rest : List UInt8) :
    Text.nextLine (line.left ++ rest) = .ok none (dropBlankLines rest) := by
  rw [← line.dropBlankLines_left rest]
  rfl

/-- What `match_tok` does with `ERROR` in front of a line. -/
inductive MatchesError (line : Line) (rest : List UInt8) : Outcome (List UInt8) Bool → Prop where
  | found (starts : startsWithTok (ascii "ERROR") line.text = true) :
      MatchesError line rest (.ok true (line.afterError ++ rest))
  | other (differs : startsWithTok (ascii "ERROR") line.text = false) :
      MatchesError line rest (.ok false (line.bytes ++ rest))

theorem matchTok_error {line : Line} (nonblank : ¬ line.Blank) (rest : List UInt8) :
    MatchesError line rest (Text.matchTok (ascii "ERROR") (line.bytes ++ rest)) := by
  obtain ⟨e, eol, ending⟩ := line.ending_eq
  have split : line.bytes ++ rest = line.text ++ e :: (line.left ++ rest) := by
    rw [Line.bytes, ending, List.append_assoc]
    rfl
  have after : line.afterError ++ rest =
      (dropBlanks line.text).drop (ascii "ERROR").length ++ e :: (line.left ++ rest) := by
    rw [Line.afterError, ending, List.append_assoc]
    rfl
  have token := Text.matchTok_line (ascii "ERROR") (by decide) (by decide) eol line.onLine
    nonblank (line.left ++ rest)
  rw [← split] at token
  generalize Text.matchTok (ascii "ERROR") (line.bytes ++ rest) = outcome at token
  cases token with
  | found starts =>
      rw [← after]
      exact .found starts
  | other differs =>
      rw [← split]
      exact .other differs

/-- A line of any other kind is skipped or refused. -/
theorem skipExtra_line {canFailP : Bool} (extraP : Bool) {line : Line} (nonblank : ¬ line.Blank)
    (rest : List UInt8) :
    LineRound canFailP extraP line rest .other ((do
      Text.skipExtra extraP
      Text.nextLine : Prog (List UInt8) (Option Bool)) (line.bytes ++ rest)) := by
  cases extraP with
  | true =>
      have skipped : Text.skipExtra true (line.bytes ++ rest) = .ok () (line.left ++ rest) :=
        takeLine_bytes nonblank rest
      rw [Prog.bind_of_ok skipped, nextLine_left]
      exact .skipped rfl
  | false =>
      obtain ⟨message, after, refused⟩ := skipExtra_refuses nonblank rest
      rw [Prog.bind_of_error refused]
      exact .refused rfl

theorem strip_ne_of_not_prefix {text : List UInt8} {line : Line}
    (notPrefix : ¬ strip text <+: strip line.text) : strip text ≠ strip line.text := by
  intro same
  rw [same] at notPrefix
  exact notPrefix (List.prefix_refl _)

/-- A line that begins with no message is none. -/
theorem Line.not_busy_of_not_prefix {line : Line}
    (notBusy : ∀ message ∈ busyMessages, ¬ strip message <+: strip line.text) :
    ¬ line.Busy := by
  rintro ⟨message, mem, same⟩
  exact strip_ne_of_not_prefix (notBusy message mem) same

theorem responseRound_line {endString : List UInt8} (literal : Literal endString)
    (canFailP extraP : Bool) {line : Line} (nonblank : ¬ line.Blank)
    (clear : line.Clear endString) (rest : List UInt8) :
    LineRound canFailP extraP line rest (line.kind endString)
      (Text.responseRound endString canFailP extraP (line.bytes ++ rest)) := by
  obtain ⟨e, split, isEnd⟩ := matchLineOnly_bytes literal nonblank rest
  generalize ran : Text.matchLineOnly endString (line.bytes ++ rest) = outcome at isEnd
  cases isEnd with
  | longer goesOn => exact absurd goesOn (clear _ List.mem_cons_self)
  | whole same =>
      have kind : line.kind endString = .endLine := by
        rw [Line.kind, if_neg nonblank, if_pos same]
      have tries : Text.responseTries endString canFailP (line.bytes ++ rest) =
          .ok (some (some true)) (line.left ++ rest) := by
        rw [Text.responseTries, Prog.bind_of_ok ran]
        rfl
      rw [kind, Text.responseRound, Prog.bind_of_ok tries]
      exact .ended
  | other differs =>
      have notEnd := strip_ne_of_not_prefix differs
      rw [← split] at ran
      have isError := matchTok_error nonblank rest
      generalize ranError : Text.matchTok (ascii "ERROR") (line.bytes ++ rest) = outcome at isError
      cases isError with
      | found starts =>
          have kind : line.kind endString = .error := by
            rw [Line.kind, if_neg nonblank, if_neg notEnd, if_pos starts]
          rw [kind, Text.responseRound]
          cases canFailP with
          | true =>
              have tries : Text.responseTries endString true (line.bytes ++ rest) =
                  .ok (some (some false)) (line.afterError ++ rest) := by
                rw [Text.responseTries, Prog.bind_of_ok ran, if_neg Bool.false_ne_true,
                  Prog.bind_of_ok ranError]
                rfl
              rw [Prog.bind_of_ok tries]
              exact .failed rfl
          | false =>
              have tries : Text.responseTries endString false (line.bytes ++ rest) =
                  .error (.panic "fatal error: got an error\n") (line.afterError ++ rest) := by
                rw [Text.responseTries, Prog.bind_of_ok ran, if_neg Bool.false_ne_true,
                  Prog.bind_of_ok ranError]
                rfl
              rw [Prog.bind_of_error tries]
              exact .fatal rfl
      | other notError =>
          have isBusy := matchBusy_line nonblank rest
          generalize ranBusy : Text.matchBusy (line.bytes ++ rest) = outcome at isBusy
          cases isBusy with
          | longer busy goesOn => exact absurd goesOn (clear _ (List.mem_cons_of_mem _ busy))
          | whole busy =>
              have kind : line.kind endString = .busy := by
                rw [Line.kind, if_neg nonblank, if_neg notEnd, notError,
                  if_neg Bool.false_ne_true, if_pos busy]
              have tries : Text.responseTries endString canFailP (line.bytes ++ rest) =
                  .ok (some none) (line.left ++ rest) := by
                rw [Text.responseTries, Prog.bind_of_ok ran, if_neg Bool.false_ne_true,
                  Prog.bind_of_ok ranError, if_neg Bool.false_ne_true, Prog.bind_of_ok ranBusy]
                rfl
              rw [kind, Text.responseRound, Prog.bind_of_ok tries]
              change LineRound canFailP extraP line rest .busy (Text.nextLine _)
              rw [nextLine_left]
              exact .busy
          | other notBusy =>
              have kind : line.kind endString = .other := by
                rw [Line.kind, if_neg nonblank, if_neg notEnd, notError,
                  if_neg Bool.false_ne_true, if_neg (Line.not_busy_of_not_prefix notBusy)]
              have tries : Text.responseTries endString canFailP (line.bytes ++ rest) =
                  .ok none (line.bytes ++ rest) := by
                rw [Text.responseTries, Prog.bind_of_ok ran, if_neg Bool.false_ne_true,
                  Prog.bind_of_ok ranError, if_neg Bool.false_ne_true, Prog.bind_of_ok ranBusy]
                rfl
              rw [kind, Text.responseRound, Prog.bind_of_ok tries]
              exact skipExtra_line extraP nonblank rest

/-! ## The first decisive line -/

def Line.decisive (endString : List UInt8) (extraP : Bool) (line : Line) : Bool :=
  match line.kind endString with
  | .endLine | .error => true
  | .other => !extraP
  | .blank | .busy => false

/-- The first decisive line, and the lines after it. -/
def firstDecisive (endString : List UInt8) (extraP : Bool) : List Line → Option (Line × List Line)
  | [] => none
  | line :: lines =>
      if line.decisive endString extraP then some (line, lines)
      else firstDecisive endString extraP lines

/-- How a stream of lines is answered, and where the text goes on. -/
inductive Answer (endString : List UInt8) (canFailP : Bool) :
    Option (Line × List Line) → Outcome (List UInt8) Bool → Prop where
  | waits {after : List UInt8} : Answer endString canFailP none (.error .blocked after)
  | ended {line : Line} {lines : List Line} (isEnd : line.kind endString = .endLine) :
      Answer endString canFailP (some (line, lines)) (.ok true (line.left ++ streamOf lines))
  | failed {line : Line} {lines : List Line} (isError : line.kind endString = .error)
      (can : canFailP = true) :
      Answer endString canFailP (some (line, lines))
        (.ok false (line.afterError ++ streamOf lines))
  | panics {line : Line} {lines : List Line} {message : String} {after : List UInt8}
      (notEnd : line.kind endString ≠ .endLine)
      (fatal : line.kind endString = .error → canFailP = false) :
      Answer endString canFailP (some (line, lines)) (.error (.panic message) after)

theorem responseRound_nil (endString : List UInt8) (canFailP extraP : Bool) :
    Text.responseRound endString canFailP extraP [] = .error .blocked [] := rfl

theorem loops_answer {endString : List UInt8} (literal : Literal endString)
    (canFailP extraP : Bool) (lines : List Line) (clear : ∀ line ∈ lines, line.Clear endString) :
    ∃ outcome, Loops (Text.responseRound endString canFailP extraP)
        (dropBlankLines (streamOf lines)) outcome ∧
      Answer endString canFailP (firstDecisive endString extraP lines) outcome := by
  induction lines with
  | nil => exact ⟨_, .stops (responseRound_nil endString canFailP extraP), .waits⟩
  | cons line lines ih =>
      obtain ⟨outcome, loops, answer⟩ :=
        ih fun other mem => clear other (List.mem_cons_of_mem _ mem)
      rw [streamOf_cons, firstDecisive]
      by_cases blank : line.Blank
      · have kind : line.kind endString = .blank := by rw [Line.kind, if_pos blank]
        have skipped : line.decisive endString extraP = false := by rw [Line.decisive, kind]
        rw [Line.dropBlankLines_of_blank blank, skipped]
        exact ⟨outcome, loops, answer⟩
      · have round := responseRound_line literal canFailP extraP blank
          (clear line List.mem_cons_self) (streamOf lines)
        rw [Line.dropBlankLines_of_not_blank blank]
        generalize kind : line.kind endString = lineKind at round
        generalize ran : Text.responseRound endString canFailP extraP
          (line.bytes ++ streamOf lines) = roundOutcome at round
        cases round with
        | ended =>
            have decides : line.decisive endString extraP = true := by rw [Line.decisive, kind]
            rw [if_pos decides]
            exact ⟨_, .ends ran, .ended kind⟩
        | failed can =>
            have decides : line.decisive endString extraP = true := by rw [Line.decisive, kind]
            rw [if_pos decides]
            exact ⟨_, .ends ran, .failed kind can⟩
        | fatal cannot =>
            have decides : line.decisive endString extraP = true := by rw [Line.decisive, kind]
            rw [if_pos decides]
            exact ⟨_, .stops ran, .panics (by rw [kind]; exact LineKind.noConfusion)
              fun _ => cannot⟩
        | busy =>
            have skipped : line.decisive endString extraP = false := by rw [Line.decisive, kind]
            rw [skipped]
            exact ⟨outcome, .goesOn ran loops, answer⟩
        | skipped extra =>
            have skipped : line.decisive endString extraP = false := by
              rw [Line.decisive, kind, extra]
              rfl
            rw [skipped]
            exact ⟨outcome, .goesOn ran loops, answer⟩
        | refused noExtra =>
            have decides : line.decisive endString extraP = true := by
              rw [Line.decisive, kind, noExtra]
              rfl
            rw [if_pos decides]
            refine ⟨_, .stops ran, .panics ?_ ?_⟩
            · rw [kind]
              exact LineKind.noConfusion
            · intro isError
              rw [kind] at isError
              cases isError

/-! ## The response of the esp -/

/-- How `cmd_response` handles a stream of lines, and where the input goes on. -/
inductive Answered {γ : Type} (endString : List UInt8) (canFailP : Bool) (input : List UInt8) :
    Option (Line × List Line) → Outcome (EspT LexSimple γ) Bool → Prop where
  | waits {after : EspT LexSimple γ} :
      Answered endString canFailP input none (.error .blocked after)
  | ended {line : Line} {lines : List Line} {after : EspT LexSimple γ}
      (isEnd : line.kind endString = .endLine)
      (there : AtEol input (line.left ++ streamOf lines) after.l) :
      Answered endString canFailP input (some (line, lines)) (.ok true after)
  | failed {line : Line} {lines : List Line} {after : EspT LexSimple γ}
      (isError : line.kind endString = .error) (can : canFailP = true)
      (there : At input (line.afterError ++ streamOf lines) after.l) :
      Answered endString canFailP input (some (line, lines)) (.ok false after)
  | panics {line : Line} {lines : List Line} {message : String} {after : EspT LexSimple γ}
      (notEnd : line.kind endString ≠ .endLine)
      (fatal : line.kind endString = .error → canFailP = false) :
      Answered endString canFailP input (some (line, lines)) (.error (.panic message) after)

section

variable {γ : Type} {endString input : List UInt8} {canFailP : Bool}
  {first : Option (Line × List Line)} {outcome : Outcome (EspT LexSimple γ) Bool}

theorem cmdResponse_answered (literal : Literal endString) {lines : List Line}
    (clear : ∀ line ∈ lines, line.Clear endString) {e : EspT LexSimple γ}
    (here : At input (streamOf lines) e.l) {fuel : Nat}
    (enough : (streamOf lines).length < fuel) (canFailP extraP : Bool) :
    Answered endString canFailP input (firstDecisive endString extraP lines)
      (cmdResponse fuel endString canFailP extraP e) := by
  obtain ⟨ideal, loops, agree⟩ := repeatUntil_simulates
    (fun _ (onInput : OnInput input _) => responseRound_simulates endString canFailP extraP onInput)
    fuel e here.self
    (by rwa [here.unread_eq])
  obtain ⟨_, loops', answer⟩ := loops_answer literal canFailP extraP lines clear
  rw [nextText, here.unread_eq] at loops
  rw [← loops.unique loops'] at answer
  rw [cmdResponse]
  generalize Prog.repeatUntil (responseRound endString canFailP extraP) fuel e = outcome at agree ⊢
  generalize firstDecisive endString extraP lines = first at answer ⊢
  cases answer with
  | waits =>
      obtain ⟨after, rfl⟩ := agree.right_of_error
      exact .waits
  | ended isEnd =>
      obtain ⟨after, rfl, there⟩ := agree.right_of_ok
      exact .ended isEnd there.atEol
  | failed isError can =>
      obtain ⟨after, rfl, there⟩ := agree.right_of_ok
      cases there with
      | failed there => exact .failed isError can there
  | panics notEnd fatal =>
      obtain ⟨after, rfl⟩ := agree.right_of_error
      exact .panics notEnd fatal

theorem Answered.returned_true_iff (answered : Answered endString canFailP input first outcome) :
    returned? outcome = some true ↔
      ∃ line rest, first = some (line, rest) ∧ line.kind endString = .endLine := by
  cases answered with
  | waits =>
      constructor
      · rintro ⟨⟩
      · rintro ⟨line, rest, ⟨⟩, _⟩
  | ended isEnd there => exact ⟨fun _ => ⟨_, _, rfl, isEnd⟩, fun _ => rfl⟩
  | failed isError can there =>
      constructor
      · rintro ⟨⟩
      · rintro ⟨line, rest, ⟨⟩, isEnd⟩
        rw [isError] at isEnd
        cases isEnd
  | panics notEnd fatal =>
      constructor
      · rintro ⟨⟩
      · rintro ⟨line, rest, ⟨⟩, isEnd⟩
        exact absurd isEnd notEnd

theorem Answered.returned_false_iff (answered : Answered endString canFailP input first outcome) :
    returned? outcome = some false ↔
      ∃ line rest, first = some (line, rest) ∧ line.kind endString = .error ∧
        canFailP = true := by
  cases answered with
  | waits =>
      constructor
      · rintro ⟨⟩
      · rintro ⟨line, rest, ⟨⟩, _⟩
  | ended isEnd there =>
      constructor
      · rintro ⟨⟩
      · rintro ⟨line, rest, ⟨⟩, isError, _⟩
        rw [isEnd] at isError
        cases isError
  | failed isError can there => exact ⟨fun _ => ⟨_, _, rfl, isError, can⟩, fun _ => rfl⟩
  | panics notEnd fatal =>
      constructor
      · rintro ⟨⟩
      · rintro ⟨line, rest, ⟨⟩, isError, can⟩
        rw [fatal isError] at can
        cases can

theorem Answered.panicked_iff (answered : Answered endString canFailP input first outcome) :
    (∃ message, stopped? outcome = some (.panic message)) ↔
      ∃ line rest, first = some (line, rest) ∧ line.kind endString ≠ .endLine ∧
        (line.kind endString = .error → canFailP = false) := by
  cases answered with
  | waits =>
      constructor
      · rintro ⟨message, ⟨⟩⟩
      · rintro ⟨line, rest, ⟨⟩, _⟩
  | ended isEnd there =>
      constructor
      · rintro ⟨message, ⟨⟩⟩
      · rintro ⟨line, rest, ⟨⟩, notEnd, _⟩
        exact absurd isEnd notEnd
  | failed isError can there =>
      constructor
      · rintro ⟨message, ⟨⟩⟩
      · rintro ⟨line, rest, ⟨⟩, _, fatal⟩
        rw [fatal isError] at can
        cases can
  | panics notEnd fatal => exact ⟨fun _ => ⟨_, _, rfl, notEnd, fatal⟩, fun _ => ⟨_, rfl⟩⟩

/-- The first decisive line alone decides: the end line returns 1, an error
line that is allowed returns 0, and every other one panics.  What comes after
it is left. -/
theorem response_decided_by_first_line (literal : Literal endString) {lines : List Line}
    (clear : ∀ line ∈ lines, line.Clear endString) {e : EspT LexSimple γ}
    (here : At input (streamOf lines) e.l) {fuel : Nat}
    (enough : (streamOf lines).length < fuel) (canFailP extraP : Bool) :
    (returned? (cmdResponse fuel endString canFailP extraP e) = some true ↔
        ∃ line rest, firstDecisive endString extraP lines = some (line, rest) ∧
          line.kind endString = .endLine) ∧
      (returned? (cmdResponse fuel endString canFailP extraP e) = some false ↔
        ∃ line rest, firstDecisive endString extraP lines = some (line, rest) ∧
          line.kind endString = .error ∧ canFailP = true) ∧
      ((∃ message, stopped? (cmdResponse fuel endString canFailP extraP e) =
          some (.panic message)) ↔
        ∃ line rest, firstDecisive endString extraP lines = some (line, rest) ∧
          line.kind endString ≠ .endLine ∧
            (line.kind endString = .error → canFailP = false)) ∧
      (∀ after, cmdResponse fuel endString canFailP extraP e = .ok true after →
        ∃ line rest, firstDecisive endString extraP lines = some (line, rest) ∧
          AtEol input (line.left ++ streamOf rest) after.l) ∧
      ∀ after, cmdResponse fuel endString canFailP extraP e = .ok false after →
        ∃ line rest, firstDecisive endString extraP lines = some (line, rest) ∧
          At input (line.afterError ++ streamOf rest) after.l := by
  have answered := cmdResponse_answered literal clear here enough canFailP extraP
  generalize cmdResponse fuel endString canFailP extraP e = outcome at answered ⊢
  generalize firstDecisive endString extraP lines = first at answered ⊢
  refine ⟨answered.returned_true_iff, answered.returned_false_iff, answered.panicked_iff, ?_, ?_⟩
  · rintro after rfl
    cases answered with
    | ended isEnd there => exact ⟨_, _, rfl, there⟩
  · rintro after rfl
    cases answered with
    | failed isError can there => exact ⟨_, _, rfl, there⟩

end

/-- A busy message, a blank line and the end, in front of an answer to another command. -/
def busyThenOk : List Line :=
  [⟨ascii "busy p...", [13, 10], by decide, crlf_ended, crlf_endings, by decide⟩,
    ⟨[], [13, 10], by decide, crlf_ended, crlf_endings, by decide⟩,
    ⟨ascii "OK", [13, 10], by decide, crlf_ended, crlf_endings, by decide⟩,
    ⟨ascii "ERROR", [13, 10], by decide, crlf_ended, crlf_endings, by decide⟩]

/-- The same lines cut in the middle of the end. -/
def busyThenOkCut : List Poll :=
  [.data ⟨ascii "busy p...\r\n\r\nO", by decide, by decide⟩, .quiet,
    .data ⟨ascii "K\r\nERROR\r\n", by decide, by decide⟩]

theorem response_decided_by_first_line_of_busy :
    returned? (cmdResponse 25 (ascii "OK") true false
      (⟨⟨LexSimple.init, busyThenOkCut⟩, false, (), [], [], []⟩ : EspT LexSimple Unit)) =
        some true := by
  have here : At (arriving busyThenOkCut) (streamOf busyThenOk) ⟨LexSimple.init, busyThenOkCut⟩ :=
    At.init (by decide)
  exact (response_decided_by_first_line (γ := Unit) ⟨by decide, by decide⟩ (by decide)
    (e := ⟨⟨LexSimple.init, busyThenOkCut⟩, false, (), [], [], []⟩) here (by decide)
    true false).1.mpr ⟨_, _, rfl, by decide⟩

end Cs140e.Esp
