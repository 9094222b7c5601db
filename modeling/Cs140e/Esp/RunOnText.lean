import Cs140e.Library.Loop
import Cs140e.Esp.ParseOnText
import Cs140e.Esp.RunText

/-!
# The response loops do on the lexer what they do on the text

A round on the lexer does a round on the text, except that a blank line may
take a round of its own, depending on when its end arrived.
-/

namespace Cs140e.Esp

open Cs140e.Library
open Text (dropBlanks dropBlankLines)

/-! ## Tries on the lexer -/

/-- A match was tried on the text without its leading blank lines, and on the
lexer with them. -/
inductive Tried (input unread : List UInt8) : Bool → List UInt8 → Lex LexSimple → Prop where
  | found {rest : List UInt8} {l : Lex LexSimple} (here : AtEol input rest l)
      (shorter : rest.length < unread.length) : Tried input unread true rest l
  | missed {l : Lex LexSimple} (here : At input unread l) :
      Tried input unread false (dropBlankLines unread) l

/-- As `Tried`, for a match that takes exactly what it matches. -/
inductive TriedTok (input unread : List UInt8) : Bool → List UInt8 → Lex LexSimple → Prop where
  | found {rest : List UInt8} {l : Lex LexSimple} (here : At input rest l) :
      TriedTok input unread true rest l
  | missed {l : Lex LexSimple} (here : At input unread l) :
      TriedTok input unread false (dropBlankLines unread) l

namespace At

variable {input unread : List UInt8} {l : Lex LexSimple}

theorem tryLine (fmt : List UInt8) (here : At input unread l) :
    AgreeOn (Tried input unread) (Text.matchLineOnly fmt (dropBlankLines unread))
      (Esp.matchLineOnly fmt l) := by
  refine ((Text.matchLineOnly_dropBlankLines fmt unread).trans
    (here.matchLineOnly fmt).with_left).mono ?_
  rintro res left right ⟨middle, both, after, returned⟩
  cases both with
  | missed =>
      cases after with
      | failed same => exact .missed same
  | found => exact .found after.atEol (Text.matchLineOnly_shorter returned)

theorem tryTok (tok : List UInt8) (here : At input unread l) :
    AgreeOn (TriedTok input unread) (Text.matchTok tok (dropBlankLines unread))
      (Esp.matchTok tok l) := by
  refine ((Text.matchTok_dropBlankLines tok unread).trans (here.matchTok tok)).mono ?_
  rintro res left right ⟨middle, both, after⟩
  cases both with
  | missed => exact .missed after
  | found => exact .found after

theorem tryBusy (here : At input unread l) :
    AgreeOn (Tried input unread) (Text.matchBusy (dropBlankLines unread)) (Esp.matchBusy l) := by
  refine (here.tryLine (ascii "busy s...")).bind fun found _ _ tried => ?_
  cases tried with
  | found there shorter => exact .returned true (.found there shorter)
  | missed same => exact same.tryLine (ascii "busy p...")

/-- After the tries of `cmd_response`: nothing matched, or the round goes on
or returns with everything up to the matched line taken. -/
inductive AfterTries (input unread : List UInt8) :
    Option (Option Bool) → List UInt8 → Lex LexSimple → Prop where
  | missed {l : Lex LexSimple} (here : At input unread l) :
      AfterTries input unread none (dropBlankLines unread) l
  | goesOn {rest : List UInt8} {l : Lex LexSimple} (here : AtEol input rest l)
      (shorter : rest.length < unread.length) : AfterTries input unread (some none) rest l
  | returns {rest : List UInt8} {l : Lex LexSimple} (value : Bool)
      (here : AfterLine input value rest l) : AfterTries input unread (some (some value)) rest l

theorem responseTries (endString : List UInt8) (canFailP : Bool) (here : At input unread l) :
    AgreeOn (AfterTries input unread)
      (Text.responseTries endString canFailP (dropBlankLines unread))
      (Esp.responseTries endString canFailP l) := by
  refine (here.tryLine endString).bind fun found _ _ tried => ?_
  cases tried with
  | found there shorter => exact .returned _ (.returns true (.matched there))
  | missed same =>
      refine (same.tryTok (ascii "ERROR")).bind fun found _ _ tried => ?_
      cases tried with
      | found there =>
          cases canFailP with
          | true => exact .returned _ (.returns false (.failed there))
          | false => exact .stopped _ _ _
      | missed same =>
          refine same.tryBusy.bind fun found _ _ tried => ?_
          cases tried with
          | found there shorter => exact .returned _ (.goesOn there shorter)
          | missed same => exact .returned _ (.missed same)

end At

/-! ## Rounds on the lexer -/

/-- The bytes not consumed yet. -/
def Lex.unread (l : Lex LexSimple) : List UInt8 := l.buf.stream.drop l.buf.pos ++ arriving l.h

theorem At.unread_eq {input unread : List UInt8} {l : Lex LexSimple} (here : At input unread l) :
    l.unread = unread := by
  obtain ⟨buf, h⟩ := l
  obtain ⟨before, buffered, rfl, unreadEq, _, _⟩ := here
  rw [Lex.unread, unreadEq, List.drop_left]

theorem At.self {input unread : List UInt8} {l : Lex LexSimple} (here : At input unread l) :
    At input l.unread l := by
  rw [here.unread_eq]
  exact here

theorem AtEol.dropBlankLines_unread {input rest : List UInt8} {l : Lex LexSimple}
    (here : AtEol input rest l) : dropBlankLines l.unread = dropBlankLines rest := by
  obtain ⟨eols, tail, rfl, all, there⟩ := here
  rw [there.unread_eq, Text.dropBlankLines_eols all]

theorem AtEol.self {input rest : List UInt8} {l : Lex LexSimple} (here : AtEol input rest l) :
    At input l.unread l := by
  obtain ⟨eols, tail, rfl, all, there⟩ := here
  exact there.self

theorem AtEol.length_unread {input rest : List UInt8} {l : Lex LexSimple}
    (here : AtEol input rest l) : l.unread.length ≤ rest.length := by
  obtain ⟨eols, tail, rfl, all, there⟩ := here
  rw [there.unread_eq, List.length_append]
  exact Nat.le_add_left _ _

/-- The lexer has not lost track of the input. -/
def OnInput {γ : Type} (input : List UInt8) (e : EspT LexSimple γ) : Prop :=
  At input e.l.unread e.l

theorem AtEol.shorter_of_eol {input unread rest : List UInt8} {l : Lex LexSimple} {c : UInt8}
    (here : AtEol input rest l) (kept : dropBlanks unread = c :: rest) :
    l.unread.length < unread.length := by
  have suffix : dropBlanks unread <:+ unread := List.dropWhile_suffix _
  have bound := suffix.length_le
  have := here.length_unread
  rw [kept, List.length_cons] at bound
  omega

section

variable {γ α : Type} {input unread : List UInt8} {e : EspT LexSimple γ}

theorem onLex_of_ok {program : Prog (Lex LexSimple) α} {value : α} {l : Lex LexSimple}
    (returned : program e.l = .ok value l) : onLex program e = .ok value { e with l := l } :=
  Prog.onPart_of_ok returned

theorem onLex_of_error {program : Prog (Lex LexSimple) α} {stop : Stop} {l : Lex LexSimple}
    (stopped : program e.l = .error stop l) : onLex program e = .error stop { e with l := l } :=
  Prog.onPart_of_error stopped

/-- A program on the lexer changes nothing else. -/
theorem onLex_agrees {τ : Type} {related : α → τ → Lex LexSimple → Prop} {left : Outcome τ α}
    {program : Prog (Lex LexSimple) α} (agree : AgreeOn related left (program e.l)) :
    AgreeOn (fun value start after => ∃ l, after = { e with l := l } ∧ related value start l) left
      (onLex program e) := by
  generalize ran : program e.l = right at agree
  cases agree with
  | returned value relates =>
      rw [onLex_of_ok ran]
      exact .returned value ⟨_, rfl, relates⟩
  | stopped stop left right =>
      rw [onLex_of_error ran]
      exact .stopped _ _ _

theorem agreeOn_onLex {τ : Type} {related : α → τ → Lex LexSimple → Prop} {left : Outcome τ α}
    {program : Prog (Lex LexSimple) α} (agree : AgreeOn related left (program e.l)) :
    AgreeOn (fun value start (after : EspT LexSimple γ) => related value start after.l) left
      (onLex program e) :=
  (onLex_agrees agree).mono fun _ _ _ ⟨_, same, relates⟩ => by
    rw [same]
    exact relates

theorem cmdEchoLine_agrees (msg : String) (here : At input unread e.l) :
    Agree (fun rest (after : EspT LexSimple γ) => AtEol input rest after.l)
      (Text.takeLine unread) (cmdEchoLine msg e) := by
  refine (agreeOn_onLex (here.getNonblankLine lineBuf 1024)).bind fun (n, buf) _ _ after => ?_
  dsimp only
  by_cases some : n ≠ 0
  · rw [if_pos some]
    exact .returned () after
  · rw [if_neg some]
    exact .returned () after

theorem takeLine_blank {c : UInt8} {rest : List UInt8} (kept : dropBlanks unread = c :: rest)
    (eol : isEolCh c = true) : Text.takeLine unread = .ok () rest := by
  have ended : Text.matchEol unread = .ok true rest := by
    rw [Text.matchEol]
    simp only [kept, eol, if_true]
  have taken : Text.getNonblankLine lineBuf 1024 unread = .ok (0, lineBuf) rest := by
    rw [Text.getNonblankLine, Prog.bind_of_ok ended]
    rfl
  rw [Text.takeLine, Prog.bind_of_ok taken]
  rfl

/-- A blank line takes a round of its own, another line is handled as on the text. -/
inductive Skips (input unread : List UInt8) (ideal : Prog (List UInt8) Unit)
    (skip : Prog (EspT LexSimple γ) Unit) (e : EspT LexSimple γ) : Prop where
  | blank {after : EspT LexSimple γ} (ran : skip e = .ok () after)
      (here : At input after.l.unread after.l)
      (shorter : after.l.unread.length < unread.length)
      (same : dropBlankLines after.l.unread = dropBlankLines unread)
  | line (agree : Agree (fun rest (after : EspT LexSimple γ) =>
      AtEol input rest after.l ∧ rest.length < unread.length) (ideal (dropBlankLines unread))
        (skip e))

theorem skips_of_blank {ideal : Prog (List UInt8) Unit} {skip : Prog (EspT LexSimple γ) Unit}
    {c : UInt8} {rest : List UInt8} (kept : dropBlanks unread = c :: rest)
    (eol : isEolCh c = true) {after : EspT LexSimple γ} (ran : skip e = .ok () after)
    (there : AtEol input rest after.l) : Skips input unread ideal skip e := by
  refine .blank ran there.self (there.shorter_of_eol kept) ?_
  rw [there.dropBlankLines_unread, Text.dropBlankLines_of_eol kept eol]

theorem takeLine_shorter {text rest : List UInt8} (returned : Text.takeLine text = .ok () rest) :
    rest.length < text.length := by
  obtain ⟨result, last, taken, returned⟩ := Prog.ok_of_bind_ok returned
  cases returned
  exact Text.getNonblankLine_shorter taken

theorem takeLine_dropBlankLines
    (other : ∀ c rest, dropBlanks unread = c :: rest → isEolCh c = false) :
    Text.takeLine (dropBlankLines unread) = Text.takeLine unread := by
  cases kept : dropBlanks unread with
  | nil =>
      have ended : Text.matchEol unread = .error .blocked [] := by
        rw [Text.matchEol]
        simp only [kept]
      have blocked : Text.getNonblankLine lineBuf 1024 unread = .error .blocked [] :=
        Prog.bind_of_error ended
      rw [Text.dropBlankLines_nil kept, Text.takeLine, Prog.bind_of_error blocked]
      rfl
  | cons c rest => rw [Text.dropBlankLines_of_not_eol kept (other c rest kept)]

theorem cmdEchoLine_skips (msg : String) (here : At input unread e.l) :
    Skips input unread Text.takeLine (cmdEchoLine msg) e := by
  have agree := cmdEchoLine_agrees msg here
  by_cases blank : ∃ c rest, dropBlanks unread = c :: rest ∧ isEolCh c = true
  · obtain ⟨c, rest, kept, eol⟩ := blank
    rw [takeLine_blank kept eol] at agree
    obtain ⟨after, ran, there⟩ := agree.right_of_ok
    exact skips_of_blank kept eol ran there
  · have other : ∀ c rest, dropBlanks unread = c :: rest → isEolCh c = false := by
      intro c rest kept
      rw [Bool.eq_false_iff]
      exact fun eol => blank ⟨c, rest, kept, eol⟩
    refine .line ?_
    rw [takeLine_dropBlankLines other]
    exact agree.with_left.mono fun _ _ _ ⟨there, returned⟩ =>
      ⟨there, takeLine_shorter returned⟩

theorem noExtra_skips (here : At input unread e.l) :
    Skips input unread (Text.skipExtra false) noExtra e := by
  have tried := agreeOn_onLex (e := e) here.matchBlankLine
  rw [Text.matchEol] at tried
  cases kept : dropBlanks unread with
  | nil =>
      simp only [kept] at tried
      obtain ⟨after, blocked⟩ := tried.right_of_error
      refine .line ?_
      rw [noExtra, Prog.bind_of_error blocked, Text.dropBlankLines_nil kept]
      exact .stopped _ _ _
  | cons c rest =>
      cases eol : isEolCh c with
      | true =>
          simp only [kept, eol, if_true] at tried
          obtain ⟨after, ran, there⟩ := tried.right_of_ok
          have skipped : noExtra e = .ok () after := by
            rw [noExtra, Prog.bind_of_ok ran]
            rfl
          exact skips_of_blank kept eol skipped there.atEol
      | false =>
          simp only [kept, eol, Bool.false_eq_true, if_false] at tried
          obtain ⟨after, ran, there⟩ := tried.right_of_ok
          cases there with
          | failed same =>
              refine .line ?_
              have taken := agreeOn_onLex (e := after) (same.getNonblankLine lineBuf 1024)
              rw [noExtra, Prog.bind_of_ok ran, if_neg Bool.false_ne_true,
                Text.dropBlankLines_of_not_eol kept eol]
              refine taken.bind fun result _ _ _ => ?_
              obtain ⟨n, line⟩ := result
              dsimp only
              by_cases none : n = 0
              · rw [if_pos none, if_pos none]
                exact .stopped _ _ _
              · rw [if_neg none, if_neg none]
                exact .stopped _ _ _

theorem skipExtra_skips (extraP : Bool) (here : At input unread e.l) :
    Skips input unread (Text.skipExtra extraP) (skipExtra extraP) e := by
  cases extraP with
  | true => exact cmdEchoLine_skips "skipping extra:" here
  | false => exact noExtra_skips here

/-! ## The loops -/

/-- What the loops look at next: a line with something on it. -/
def nextText (e : EspT LexSimple γ) : List UInt8 := dropBlankLines e.l.unread

/-- What the skip at the end of a round does for the loop on the text. -/
theorem Skips.round {inv : EspT LexSimple γ → Prop}
    {related : Bool → List UInt8 → EspT LexSimple γ → Prop} {ideal : Prog (List UInt8) Unit}
    {skip : Prog (EspT LexSimple γ) Unit} {start : EspT LexSimple γ}
    {body : Prog (EspT LexSimple γ) (Option Bool)} {round : Prog (List UInt8) (Option Bool)}
    (skips : Skips input start.l.unread ideal skip e)
    (bodyEq : body start = (do skip; pure none) e)
    (idealEq : round (nextText start) = (do ideal; Text.nextLine) (nextText start))
    (kept : ∀ after, At input after.l.unread after.l → skip e = .ok () after → inv after) :
    RoundSimulates inv (fun e => e.l.unread.length) nextText related round body start := by
  cases skips with
  | blank ran here shorter same =>
      refine .stutters ?_ (kept _ here ran) shorter same
      rw [bodyEq, Prog.bind_of_ok ran]
      rfl
  | line agree =>
      refine .follows ?_
      rw [bodyEq, idealEq]
      change AgreeOn _ ((ideal >>= _) (dropBlankLines start.l.unread)) _
      generalize idealRan : ideal (dropBlankLines start.l.unread) = idealOutcome at agree
      generalize ran : skip e = outcome at agree
      cases agree with
      | stopped stop left right =>
          rw [Prog.bind_of_error idealRan, Prog.bind_of_error ran]
          exact .stopped _ _ _
      | returned value relates =>
          obtain ⟨there, shorter⟩ := relates
          have next := there.dropBlankLines_unread
          have bound := there.length_unread
          rw [Prog.bind_of_ok idealRan, Prog.bind_of_ok ran]
          exact .returned none ⟨kept _ there.self ran, by dsimp only; omega, next⟩

theorem responseRound_simulates (endString : List UInt8) (canFailP extraP : Bool)
    (here : OnInput input e) :
    RoundSimulates (OnInput input) (fun e => e.l.unread.length) nextText
      (fun value rest after => AfterLine input value rest after.l)
      (Text.responseRound endString canFailP extraP) (responseRound endString canFailP extraP)
      e := by
  have tries := agreeOn_onLex (e := e) (here.responseTries endString canFailP)
  generalize idealRan :
    Text.responseTries endString canFailP (dropBlankLines e.l.unread) = ideal at tries
  generalize ran : onLex (Esp.responseTries endString canFailP) e = outcome at tries
  cases tries with
  | stopped stop left right =>
      refine .follows ?_
      rw [responseRound, Prog.bind_of_error ran, Text.responseRound, nextText,
        Prog.bind_of_error idealRan]
      exact .stopped _ _ _
  | @returned value left middle relates =>
      cases relates with
      | returns value there =>
          refine .follows ?_
          rw [responseRound, Prog.bind_of_ok ran, Text.responseRound, nextText,
            Prog.bind_of_ok idealRan]
          exact .returned (some value) there
      | goesOn there shorter =>
          refine .follows ?_
          rw [responseRound, Prog.bind_of_ok ran, Text.responseRound, nextText,
            Prog.bind_of_ok idealRan]
          have next := there.dropBlankLines_unread
          have bound := there.length_unread
          exact .returned none ⟨there.self, by dsimp only; omega, next⟩
      | missed there =>
          refine (skipExtra_skips (e := middle) extraP there).round ?_ ?_ fun _ after _ => after
          · rw [responseRound, Prog.bind_of_ok ran]
          · rw [Text.responseRound, nextText, Prog.bind_of_ok idealRan]

/-- Nothing but lines is read while the connection is not active. -/
def Inactive (input : List UInt8) (e : EspT LexSimple γ) : Prop :=
  OnInput input e ∧ e.activeP = false

theorem matchBusy_nil : Text.matchBusy [] = .error .blocked [] := rfl

theorem matchBlankLine_of_blank (here : At input unread e.l) {c : UInt8} {rest : List UInt8}
    (kept : dropBlanks unread = c :: rest) (eol : isEolCh c = true) :
    ∃ l, onLex matchBlankLine e = .ok true { e with l := l } ∧ AtEol input rest l := by
  have agree := here.matchBlankLine
  rw [Text.matchEol] at agree
  simp only [kept, eol, if_true] at agree
  obtain ⟨l, ran, there⟩ := agree.right_of_ok
  exact ⟨l, onLex_of_ok ran, there.atEol⟩

theorem matchBlankLine_of_not (here : At input unread e.l) {c : UInt8} {rest : List UInt8}
    (kept : dropBlanks unread = c :: rest) (other : isEolCh c = false) :
    ∃ l, onLex matchBlankLine e = .ok false { e with l := l } ∧ At input unread l := by
  have agree := here.matchBlankLine
  rw [Text.matchEol] at agree
  simp only [kept, other, Bool.false_eq_true, if_false] at agree
  obtain ⟨l, ran, there⟩ := agree.right_of_ok
  cases there with
  | failed same => exact ⟨l, onLex_of_ok ran, same⟩

theorem matchBlankLine_of_end (here : At input unread e.l) (none : dropBlanks unread = []) :
    ∃ after, onLex matchBlankLine e = .error .blocked after := by
  have agree := here.matchBlankLine
  rw [Text.matchEol] at agree
  simp only [none] at agree
  obtain ⟨l, blocked⟩ := agree.right_of_error
  exact ⟨_, onLex_of_error blocked⟩

theorem handle_inactive (inactive : e.activeP = false) :
    defaultHandleOutOfOrderMsg e = cmdEchoLine "booting up: ignoring:" e := by
  rw [defaultHandleOutOfOrderMsg, Prog.bind_of_ok (Prog.get_apply e), inactive]
  rfl

theorem onLex_frame {B : Type} {program : Prog (Lex B) α} {start after : EspT B γ} {value : α}
    (ran : onLex program start = .ok value after) : after = { start with l := after.l } := by
  rw [onLex, Prog.onPart] at ran
  split at ran
  · cases ran
    rfl
  · cases ran

/-- Echoing a line touches the input and the console. -/
theorem cmdEchoLine_frame {B : Type} [Lexer B] {msg : String} {start after : EspT B γ}
    (ran : cmdEchoLine msg start = .ok () after) :
    after = { start with l := after.l, echoed := after.echoed } := by
  obtain ⟨⟨n, buf⟩, middle, read, ran⟩ := Prog.ok_of_bind_ok ran
  have same := onLex_frame read
  dsimp only at ran
  split at ran
  · cases ran
    rw [same]
  · cases ran
    rw [same]

/-- A round of `cmd_ack` after the line was neither the echo nor blank. -/
theorem ackBusy_simulates {body : Prog (EspT LexSimple γ) (Option Bool)}
    {ideal : Prog (List UInt8) (Option Bool)} {start : EspT LexSimple γ}
    (here : At input start.l.unread e.l) (inactive : e.activeP = false)
    (bodyEq : body start = (do
      if ← onLex Esp.matchBusy then pure none
      else
        defaultHandleOutOfOrderMsg
        pure none) e)
    (idealEq : ideal (nextText start) = (do
      if ← Text.matchBusy then Text.nextLine
      else
        Text.takeLine
        Text.nextLine) (nextText start)) :
    RoundSimulates (Inactive input) (fun e => e.l.unread.length) nextText
      (fun value rest after => AfterLine input value rest after.l) ideal body start := by
  have busy := onLex_agrees here.tryBusy
  generalize idealRan : Text.matchBusy (dropBlankLines start.l.unread) = idealOutcome at busy
  generalize ran : onLex Esp.matchBusy e = outcome at busy
  cases busy with
  | stopped stop left right =>
      refine .follows ?_
      rw [bodyEq, idealEq, Prog.bind_of_error ran, nextText, Prog.bind_of_error idealRan]
      exact .stopped _ _ _
  | returned value relates =>
      obtain ⟨l, rfl, tried⟩ := relates
      cases tried with
      | found there shorter =>
          refine .follows ?_
          have bound := there.length_unread
          rw [bodyEq, idealEq, Prog.bind_of_ok ran, nextText, Prog.bind_of_ok idealRan]
          exact .returned none ⟨⟨there.self, inactive⟩, by dsimp only; omega,
            there.dropBlankLines_unread⟩
      | missed same =>
          have skips := cmdEchoLine_skips (e := { e with l := l }) "booting up: ignoring:" same
          refine skips.round ?_ ?_ fun after here echoed => ⟨here, ?_⟩
          · rw [bodyEq, Prog.bind_of_ok ran, if_neg Bool.false_ne_true]
            exact Prog.bind_congr (handle_inactive inactive)
          · rw [idealEq, nextText, Prog.bind_of_ok idealRan]
            rfl
          · rw [cmdEchoLine_frame echoed]
            exact inactive

theorem ackRound_simulates (cmd : List UInt8) (here : Inactive input e) :
    RoundSimulates (Inactive input) (fun e => e.l.unread.length) nextText
      (fun value rest after => AfterLine input value rest after.l) (Text.ackRound cmd)
      (ackRound defaultHandleOutOfOrderMsg cmd) e := by
  obtain ⟨here, inactive⟩ := here
  have echo := onLex_agrees (e := e) (here.tryLine cmd)
  generalize idealRan : Text.matchLineOnly cmd (dropBlankLines e.l.unread) = ideal at echo
  generalize ran : onLex (Esp.matchLineOnly cmd) e = outcome at echo
  cases echo with
  | stopped stop left right =>
      refine .follows ?_
      rw [ackRound, Prog.bind_of_error ran, Text.ackRound, nextText, Prog.bind_of_error idealRan]
      exact .stopped _ _ _
  | returned value relates =>
      obtain ⟨l, rfl, tried⟩ := relates
      cases tried with
      | found there shorter =>
          refine .follows ?_
          rw [ackRound, Prog.bind_of_ok ran, Text.ackRound, nextText, Prog.bind_of_ok idealRan]
          exact .returned (some true) (.matched there)
      | missed same =>
          cases kept : dropBlanks e.l.unread with
          | nil =>
              obtain ⟨after, blocked⟩ := matchBlankLine_of_end (e := { e with l := l }) same kept
              refine .follows ?_
              rw [ackRound, Prog.bind_of_ok ran, if_neg Bool.false_ne_true,
                Prog.bind_of_error blocked, Text.ackRound, nextText, Prog.bind_of_ok idealRan,
                if_neg Bool.false_ne_true, Text.dropBlankLines_nil kept,
                Prog.bind_of_error matchBusy_nil]
              exact .stopped _ _ _
          | cons c rest =>
              cases eol : isEolCh c with
              | true =>
                  obtain ⟨after, blank, there⟩ :=
                    matchBlankLine_of_blank (e := { e with l := l }) same kept eol
                  have skipped : ackRound defaultHandleOutOfOrderMsg cmd e =
                      .ok none { e with l := after } := by
                    rw [ackRound, Prog.bind_of_ok ran, if_neg Bool.false_ne_true,
                      Prog.bind_of_ok blank]
                    rfl
                  refine .stutters skipped ⟨there.self, inactive⟩ (there.shorter_of_eol kept) ?_
                  rw [nextText, nextText, there.dropBlankLines_unread,
                    Text.dropBlankLines_of_eol kept eol]
              | false =>
                  obtain ⟨middle, notBlank, same⟩ :=
                    matchBlankLine_of_not (e := { e with l := l }) same kept eol
                  refine ackBusy_simulates (e := { e with l := middle }) same inactive ?_ ?_
                  · rw [ackRound, Prog.bind_of_ok ran, if_neg Bool.false_ne_true,
                      Prog.bind_of_ok notBlank, if_neg Bool.false_ne_true]
                  · rw [Text.ackRound, nextText, Prog.bind_of_ok idealRan,
                      if_neg Bool.false_ne_true]

end

end Cs140e.Esp
