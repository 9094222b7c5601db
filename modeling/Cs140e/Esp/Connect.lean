import Cs140e.Esp.Consumed
import Cs140e.Esp.FailedMatch
import Cs140e.Esp.VaArgs

/-!
# Waiting for the number of a channel

`cmd_responsef` hands its one `va_list` to every attempt to match a line.  An
attempt that fails may have fetched the pointer; the next one then asks for an
argument that was never passed.
-/

namespace Cs140e.Esp

open Cs140e.Library

namespace Text

/-! ## The attempts to match `%u, CONNECT` -/

/-- The format of `issue_tcp_connect`. -/
def connect : List UInt8 := ascii "%u, CONNECT"

/-- Every attempt that looks at a line fetches an argument. -/
theorem matchv_connect_next {args after : VaList} {text rest : List UInt8} {found : Bool}
    (returned : matchv connect args text = .ok (found, after) rest) :
    args.next + 1 ≤ after.next ∧ after.cells.length = args.cells.length := by
  rw [matchv, Prog.bind_of_ok (Prog.get_apply text)] at returned
  obtain ⟨_, middle, skipped, loops⟩ := Prog.ok_of_bind_ok returned
  obtain ⟨result, last, looped, ends⟩ := Prog.ok_of_bind_ok loops
  have same : after = result.args := by
    split at ends
    · cases ends
      rfl
    · split at ends
      · cases ends
      · cases ends
        rfl
  rw [skipLeading_eq] at skipped
  split at skipped
  · cases skipped
  · case isFalse some =>
      cases skipped
      obtain ⟨c, rest, kept⟩ := List.exists_cons_of_ne_nil some
      rw [kept] at looped
      have start : connect = 37 :: 117 :: ascii ", CONNECT" := rfl
      rw [start, matchvLoop_percent (not_eol_of_dropWs kept)] at looped
      rw [same]
      exact matchvLoop_next looped

/-- Without an argument left the attempt asks for one nonetheless. -/
theorem matchLinev_connect_past {args : VaList} (past : args.cells.length ≤ args.next)
    (text : List UInt8) :
    matchLinev connect args text =
      if dropWs text = [] then .error .blocked [] else .error pastArgs (dropWs text) := by
  rw [matchLinev, matchv]
  have leading := skipLeading_eq text
  cases kept : dropWs text with
  | nil =>
      rw [kept, if_pos rfl] at leading
      rw [if_pos rfl]
      refine Prog.bind_of_error ?_
      rw [Prog.bind_of_ok (Prog.get_apply text), Prog.bind_of_error leading]
  | cons c rest =>
      rw [kept, if_neg (List.cons_ne_nil c rest)] at leading
      have fetch : (args.arg : Prog (List UInt8) (Cell × VaList)) (c :: rest) =
          .error pastArgs (c :: rest) := by
        rw [VaList.arg, List.getElem?_eq_none past]
        rfl
      have converted : matchConversion 117 args (c :: rest) = .error pastArgs (c :: rest) := by
        rw [matchConversion, if_neg (by decide), if_pos rfl, Prog.bind_of_error fetch]
      have looped : matchvLoop connect true false false args (c :: rest) =
          .error pastArgs (c :: rest) := by
        have start : connect = 37 :: 117 :: ascii ", CONNECT" := rfl
        rw [start, matchvLoop_percent (not_eol_of_dropWs kept), matchvLoop,
          Prog.bind_of_error converted]
      rw [if_neg (List.cons_ne_nil c rest)]
      refine Prog.bind_of_error ?_
      rw [Prog.bind_of_ok (Prog.get_apply text), Prog.bind_of_ok leading,
        Prog.bind_of_error looped]

/-! ## The first round on the text -/

def matchSuspicious : Prog (List UInt8) Bool :=
  either (matchTok (ascii "OK")) (either (matchTok (ascii "SEND OK"))
    (either (matchTok (ascii "ready")) (matchTok (ascii "BUSY"))))

/-- As `responsevTries` on the lexer. -/
def responsevTries (canFailP : Bool) (fmt : List UInt8) (args : VaList) :
    Prog (List UInt8) (Option (Option Bool) × VaList) := do
  let (res, args) ← matchLinev fmt args
  if res then
    pure (some (some true), args)
  else if ← matchTok (ascii "ERROR") then
    if canFailP then
      pure (some (some false), args)
    else
      throw (.panic "fatal error: got an error\n")
  else if ← matchSuspicious then
    throw (.panic "suspicious end of command\n")
  else if ← matchBusy then
    pure (some none, args)
  else
    pure (none, args)

/-- The line does not match, and it is none at which the loop gives up. -/
structure Missed (channel : UInt32) (text : List UInt8) : Prop where
  line : ∃ args, matchLinev connect ⟨[.uint channel], 0⟩ text = .ok (false, args) text
  noError : matchTok (ascii "ERROR") text = .ok false text
  expected : matchSuspicious text = .ok false text

/-- What the loop skips before it makes another attempt: a busy message, with
`extra_p` any other line, else a blank line in front of it. -/
inductive Skipped (extraP : Bool) (text : List UInt8) : List UInt8 → Prop where
  | busy {rest : List UInt8} (matched : matchBusy text = .ok true rest) : Skipped extraP text rest
  | extra {rest : List UInt8} (idle : matchBusy text = .ok false text) (allowed : extraP = true)
      (taken : takeLine text = .ok () rest) : Skipped extraP text rest
  | blank {rest : List UInt8} (idle : matchBusy text = .ok false text)
      (forbidden : extraP = false) (taken : matchEol text = .ok true rest) :
      Skipped extraP text rest

/-- Another attempt is made, and it finds something to look at. -/
def TriesAgain (channel : UInt32) (extraP : Bool) (text : List UInt8) : Prop :=
  Missed channel text ∧ ∃ rest, Skipped extraP text rest ∧ dropWs rest ≠ []

theorem within_matchSuspicious : Within matchSuspicious :=
  (within_matchTok _).bind fun _ _ _ _ => .ite (.pure _) ((within_matchTok _).bind
    fun _ _ _ _ => .ite (.pure _) ((within_matchTok _).bind fun _ _ _ _ => .ite (.pure _)
      (within_matchTok _)))

theorem within_matchBusy : Within matchBusy :=
  (within_matchLineOnly (by decide)).bind fun _ _ _ _ => .ite (.pure _)
    (within_matchLineOnly (by decide))

theorem within_responsevTries (canFailP : Bool) (channel : UInt32) :
    Within (responsevTries canFailP connect ⟨[.uint channel], 0⟩) := by
  have enough : 0 + connect.count 37 ≤ 1 := by decide
  have first : Within (matchLinev connect ⟨[.uint channel], 0⟩) := within_matchLinev enough
  refine first.bind fun _ _ _ _ => .ite (.pure _) ((within_matchTok _).bind fun _ _ _ _ =>
    .ite ?_ (within_matchSuspicious.bind fun _ _ _ _ => .ite (.throw (by decide))
      (within_matchBusy.bind fun _ _ _ _ => .ite (.pure _) (.pure _))))
  cases canFailP with
  | true => exact .pure _
  | false => exact .throw (by decide)

/-- What the tries have found when they returned. -/
inductive Tries (channel : UInt32) (text : List UInt8) :
    Option (Option Bool) × VaList → List UInt8 → Prop where
  | matched {args : VaList} {rest : List UInt8}
      (line : matchLinev connect ⟨[.uint channel], 0⟩ text = .ok (true, args) rest) :
      Tries channel text (some (some true), args) rest
  | failed (args : VaList) (rest : List UInt8) : Tries channel text (some (some false), args) rest
  | busy {args : VaList} {rest : List UInt8} (missed : Missed channel text)
      (fetched : 1 ≤ args.next ∧ args.cells.length = 1) (found : matchBusy text = .ok true rest) :
      Tries channel text (some none, args) rest
  | missed {args : VaList} (missed : Missed channel text)
      (fetched : 1 ≤ args.next ∧ args.cells.length = 1)
      (idle : matchBusy text = .ok false text) : Tries channel text (none, args) text

theorem either_failed {first second : Prog (List UInt8) Bool} {text rest : List UInt8}
    (keepsFirst : ∀ {rest}, first text = .ok false rest → rest = text)
    (keepsSecond : ∀ {rest}, second text = .ok false rest → rest = text)
    (failed : either first second text = .ok false rest) : rest = text := by
  obtain ⟨found, middle, tried, failed⟩ := Prog.ok_of_bind_ok failed
  cases found with
  | true => cases failed
  | false =>
      cases keepsFirst tried
      exact keepsSecond failed

theorem matchSuspicious_failed {text rest : List UInt8}
    (failed : matchSuspicious text = .ok false rest) : rest = text :=
  either_failed matchTok_failed
    (either_failed matchTok_failed (either_failed matchTok_failed matchTok_failed)) failed

theorem matchLineOnly_failed {fmt text rest : List UInt8}
    (failed : matchLineOnly fmt text = .ok false rest) : rest = text := by
  obtain ⟨⟨res, _⟩, _, line, ends⟩ := Prog.ok_of_bind_ok failed
  obtain ⟨⟨res', _⟩, _, linev, returns⟩ := Prog.ok_of_bind_ok line
  cases returns
  cases ends
  exact matchLinev_failed linev

theorem matchBusy_failed {text rest : List UInt8}
    (failed : matchBusy text = .ok false rest) : rest = text :=
  either_failed matchLineOnly_failed matchLineOnly_failed failed

/-- A line that did not match failed in front of its end. -/
theorem matchv_of_matchLinev {fmt : List UInt8} {args after : VaList} {text rest : List UInt8}
    (failed : matchLinev fmt args text = .ok (false, after) rest) :
    matchv fmt args text = .ok (false, after) rest := by
  obtain ⟨⟨res, argsAfter⟩, middle, tried, ends⟩ := Prog.ok_of_bind_ok failed
  cases res with
  | false =>
      cases ends
      exact tried
  | true =>
      obtain ⟨ended, _, _, ends⟩ := Prog.ok_of_bind_ok ends
      cases ended <;> cases ends

theorem tries_of_responsevTries {canFailP : Bool} {channel : UInt32} {text rest : List UInt8}
    {result : Option (Option Bool) × VaList}
    (returned : responsevTries canFailP connect ⟨[.uint channel], 0⟩ text = .ok result rest) :
    Tries channel text result rest := by
  obtain ⟨⟨res, args⟩, left, line, rounds⟩ := Prog.ok_of_bind_ok returned
  cases res with
  | true =>
      cases rounds
      exact .matched line
  | false =>
      cases matchLinev_failed line
      obtain ⟨isError, left, error, rounds⟩ := Prog.ok_of_bind_ok rounds
      cases isError with
      | true =>
          cases canFailP with
          | false => cases rounds
          | true =>
              cases rounds
              exact .failed args _
      | false =>
          cases matchTok_failed error
          obtain ⟨isEnd, left, ending, rounds⟩ := Prog.ok_of_bind_ok rounds
          cases isEnd with
          | true => cases rounds
          | false =>
              cases matchSuspicious_failed ending
              obtain ⟨isBusy, left, busy, rounds⟩ := Prog.ok_of_bind_ok rounds
              have missed : Missed channel _ := ⟨⟨args, line⟩, error, ending⟩
              have fetched := matchv_connect_next (matchv_of_matchLinev line)
              cases isBusy with
              | true =>
                  cases rounds
                  exact .busy missed fetched busy
              | false =>
                  cases matchBusy_failed busy
                  cases rounds
                  exact .missed missed fetched busy

/-- A line at which no match succeeds is skipped or fatal. -/
def skipLine (extraP : Bool) : Prog (List UInt8) Unit := do
  if extraP then
    takeLine
  else if ← matchEol then
    pure ()
  else
    let (n, _) ← getNonblankLine lineBuf 1024
    if n = 0 then
      throw (.panic "expected non-blank!\n")
    else
      throw (.panic "specified no extra output for command.  hit some:<%s>.\n")

theorem within_skipLine (extraP : Bool) : Within (skipLine extraP) := by
  refine .ite ((within_getNonblankLine _ _).bind fun _ _ _ _ => .pure _)
    (within_matchEol.bind fun _ _ _ _ => .ite (.pure _)
      ((within_getNonblankLine _ _).bind fun _ _ _ _ =>
        .ite (.throw (by decide)) (.throw (by decide))))

theorem skipped_of_skipLine {extraP : Bool} {text rest : List UInt8}
    (idle : matchBusy text = .ok false text) (returned : skipLine extraP text = .ok () rest) :
    Skipped extraP text rest := by
  cases extraP with
  | true => exact .extra idle rfl returned
  | false =>
      obtain ⟨blank, left, ended, ends⟩ := Prog.ok_of_bind_ok returned
      cases blank with
      | true =>
          cases ends
          exact .blank idle rfl ended
      | false =>
          obtain ⟨⟨n, _⟩, _, _, throws⟩ := Prog.ok_of_bind_ok ends
          dsimp only at throws
          split at throws <;> cases throws

/-- A round of `cmd_responsev`. -/
def responsevRound (canFailP extraP : Bool) (args : VaList) :
    Prog (List UInt8) (Option Bool × VaList) := do
  match ← responsevTries canFailP connect args with
  | (some result, args) => pure (result, args)
  | (none, args) =>
      skipLine extraP
      pure (none, args)

theorem within_responsevRound (canFailP extraP : Bool) (channel : UInt32) :
    Within (responsevRound canFailP extraP ⟨[.uint channel], 0⟩) := by
  refine (within_responsevTries canFailP channel).bind fun _ (tried, args) _ _ => ?_
  cases tried with
  | some result => exact .pure _
  | none => exact (within_skipLine extraP).bind fun _ _ _ _ => .pure _

/-- What a first round that returned says about the text. -/
inductive FirstRound (channel : UInt32) (extraP : Bool) (text : List UInt8) :
    Option Bool × VaList → List UInt8 → Prop where
  | matched {args : VaList} {rest : List UInt8}
      (line : matchLinev connect ⟨[.uint channel], 0⟩ text = .ok (true, args) rest) :
      FirstRound channel extraP text (some true, args) rest
  | failed (args : VaList) (rest : List UInt8) :
      FirstRound channel extraP text (some false, args) rest
  | again {args : VaList} {rest : List UInt8} (missed : Missed channel text)
      (skipped : Skipped extraP text rest) (past : args.cells.length ≤ args.next) :
      FirstRound channel extraP text (none, args) rest

theorem firstRound_of_returned {canFailP extraP : Bool} {channel : UInt32}
    {text rest : List UInt8} {result : Option Bool × VaList}
    (returned : responsevRound canFailP extraP ⟨[.uint channel], 0⟩ text = .ok result rest) :
    FirstRound channel extraP text result rest := by
  obtain ⟨⟨tried, args⟩, left, tries, ends⟩ := Prog.ok_of_bind_ok returned
  cases tries_of_responsevTries tries with
  | matched line =>
      cases ends
      exact .matched line
  | failed =>
      cases ends
      exact .failed args rest
  | busy missed fetched found =>
      cases ends
      exact .again missed (.busy found) (by omega)
  | missed missed fetched idle =>
      obtain ⟨_, _, skip, ends⟩ := Prog.ok_of_bind_ok ends
      cases ends
      exact .again missed (skipped_of_skipLine idle skip) (by omega)

/-- A line that is skipped leads to another round. -/
theorem responsevRound_of_skipped (canFailP : Bool) {extraP : Bool} {channel : UInt32}
    {text rest : List UInt8} (missed : Missed channel text)
    (skipped : Skipped extraP text rest) :
    ∃ args, responsevRound canFailP extraP ⟨[.uint channel], 0⟩ text = .ok (none, args) rest := by
  obtain ⟨⟨args, line⟩, noError, expected⟩ := missed
  have tries : ∀ {isBusy : Bool} {rest : List UInt8}, matchBusy text = .ok isBusy rest →
      responsevTries canFailP connect ⟨[.uint channel], 0⟩ text =
        .ok (if isBusy then some none else none, args) rest := by
    intro isBusy rest busy
    rw [responsevTries, Prog.bind_of_ok line]
    dsimp only
    rw [if_neg Bool.false_ne_true, Prog.bind_of_ok noError, if_neg Bool.false_ne_true,
      Prog.bind_of_ok expected, if_neg Bool.false_ne_true, Prog.bind_of_ok busy]
    cases isBusy <;> rfl
  refine ⟨args, ?_⟩
  cases skipped with
  | busy matched =>
      rw [responsevRound, Prog.bind_of_ok (tries matched)]
      rfl
  | extra idle allowed taken =>
      have skip : skipLine extraP text = .ok () rest := by
        rw [skipLine, if_pos allowed, taken]
      have none : responsevTries canFailP connect ⟨[.uint channel], 0⟩ text =
          .ok (none, args) text := tries idle
      rw [responsevRound, Prog.bind_of_ok none]
      exact Prog.bind_of_ok skip
  | blank idle forbidden taken =>
      have skip : skipLine extraP text = .ok () rest := by
        rw [skipLine, forbidden, if_neg Bool.false_ne_true, Prog.bind_of_ok taken]
        rfl
      have none : responsevTries canFailP connect ⟨[.uint channel], 0⟩ text =
          .ok (none, args) text := tries idle
      rw [responsevRound, Prog.bind_of_ok none]
      exact Prog.bind_of_ok skip

end Text

/-! ## The first round on the lexer -/

namespace At

variable {input unread : List UInt8} {l : Lex LexSimple}

/-- The second match is tried where the first one was. -/
theorem eitherOf {related : Bool → List UInt8 → Lex LexSimple → Prop}
    {first second : Prog (List UInt8) Bool} {first' second' : Prog (Lex LexSimple) Bool}
    (agree : AgreeOn related (first unread) (first' l))
    (failed : ∀ {rest after}, related false rest after → first unread = .ok false rest →
      At input unread after ∧ rest = unread)
    (next : ∀ {after}, At input unread after → AgreeOn related (second unread) (second' after)) :
    AgreeOn related (Esp.either first second unread) (Esp.either first' second' l) := by
  refine agree.with_left.bind fun found rest after ⟨relates, returned⟩ => ?_
  cases found with
  | true => exact .returned true relates
  | false =>
      obtain ⟨same, rfl⟩ := failed relates returned
      exact next same

theorem matchSuspicious (here : At input unread l) :
    Agree (At input) (Text.matchSuspicious unread) (Esp.matchSuspicious l) := by
  have same : ∀ {tok : List UInt8} {rest : List UInt8} {after : Lex LexSimple},
      At input rest after → Text.matchTok tok unread = .ok false rest →
        At input unread after ∧ rest = unread := by
    intro tok rest after there failed
    cases Text.matchTok_failed failed
    exact ⟨there, rfl⟩
  exact eitherOf (here.matchTok _) same fun here => eitherOf (here.matchTok _) same
    fun here => eitherOf (here.matchTok _) same fun here => here.matchTok _

theorem matchBusy (here : At input unread l) :
    AgreeOn (AfterLine input) (Text.matchBusy unread) (Esp.matchBusy l) := by
  refine eitherOf (here.matchLineOnly _) ?_ fun here => here.matchLineOnly _
  intro rest after line failed
  cases Text.matchLineOnly_failed failed
  cases line with
  | failed there => exact ⟨there, rfl⟩

/-- Where the tries leave the lexer. -/
inductive AfterResponsev (input unread : List UInt8) :
    Option (Option Bool) × VaList → List UInt8 → Lex LexSimple → Prop where
  | returns (value : Bool) (args : VaList) (rest : List UInt8) (l : Lex LexSimple) :
      AfterResponsev input unread (some (some value), args) rest l
  | goesOn (args : VaList) {rest : List UInt8} {l : Lex LexSimple} (here : AtEol input rest l) :
      AfterResponsev input unread (some none, args) rest l
  | missed (args : VaList) {l : Lex LexSimple} (here : At input unread l) :
      AfterResponsev input unread (none, args) unread l

theorem responsevTries (canFailP : Bool) (fmt : List UInt8) (args : VaList)
    (here : At input unread l) :
    AgreeOn (AfterResponsev input unread) (Text.responsevTries canFailP fmt args unread)
      (Esp.responsevTries canFailP fmt args l) := by
  refine (here.matchLinev fmt args).with_left.bind fun (res, args) rest _ ⟨line, returned⟩ => ?_
  cases res with
  | true => exact .returned _ (.returns true args _ _)
  | false =>
      cases Text.matchLinev_failed returned
      cases line with
      | failed here =>
          refine (here.matchTok _).with_left.bind fun found rest _ ⟨here, returned⟩ => ?_
          cases found with
          | true =>
              cases canFailP with
              | true => exact .returned _ (.returns false args _ _)
              | false => exact .stopped _ _ _
          | false =>
              cases Text.matchTok_failed returned
              refine here.matchSuspicious.with_left.bind
                fun found rest _ ⟨here, returned⟩ => ?_
              cases found with
              | true => exact .stopped _ _ _
              | false =>
                  cases Text.matchSuspicious_failed returned
                  refine here.matchBusy.with_left.bind fun found rest _ ⟨line, returned⟩ => ?_
                  cases line with
                  | matched there => exact .returned _ (.goesOn args there)
                  | failed here =>
                      cases Text.matchBusy_failed returned
                      exact .returned _ (.missed args here)

end At

section

variable {γ : Type} {input unread : List UInt8} {e : EspT LexSimple γ}

theorem skipExtra_agrees (extraP : Bool) (here : At input unread e.l) :
    Agree (fun rest (after : EspT LexSimple γ) => AtEol input rest after.l)
      (Text.skipLine extraP unread) (skipExtra extraP e) := by
  cases extraP with
  | true => exact cmdEchoLine_agrees "skipping extra:" here
  | false =>
      refine (agreeOn_onLex here.matchBlankLine).bind fun blank rest after line => ?_
      cases blank with
      | true => exact .returned () line.atEol
      | false =>
          generalize same : after.l = l at line
          cases line with
          | failed here =>
              rw [← same] at here
              refine (agreeOn_onLex (here.getNonblankLine lineBuf 1024)).bind
                fun (n, _) _ _ _ => ?_
              dsimp only
              by_cases none : n = 0
              · rw [if_pos none, if_pos none]
                exact .stopped _ _ _
              · rw [if_neg none, if_neg none]
                exact .stopped _ _ _

/-- A round on the lexer does what it does on the text. -/
theorem cmdResponsev_round (canFailP extraP : Bool) (args : VaList) (here : At input unread e.l)
    (fuel : Nat) :
    match Text.responsevRound canFailP extraP args unread with
    | .error stop _ => ∃ after, cmdResponsev canFailP extraP Text.connect (fuel + 1) args e =
        .error stop after
    | .ok (some result, argsAfter) _ => ∃ after,
        cmdResponsev canFailP extraP Text.connect (fuel + 1) args e = .ok (result, argsAfter) after
    | .ok (none, argsAfter) rest => ∃ after, AtEol input rest after.l ∧
        cmdResponsev canFailP extraP Text.connect (fuel + 1) args e =
          cmdResponsev canFailP extraP Text.connect fuel argsAfter after := by
  have tries := agreeOn_onLex (e := e) (here.responsevTries canFailP Text.connect args)
  generalize idealRan : Text.responsevTries canFailP Text.connect args unread = ideal at tries
  generalize ran : onLex (responsevTries canFailP Text.connect args) e = outcome at tries
  cases tries with
  | stopped stop left right =>
      rw [Text.responsevRound, Prog.bind_of_error idealRan, cmdResponsev, Prog.bind_of_error ran]
      exact ⟨_, rfl⟩
  | @returned value left middle relates =>
      rw [Text.responsevRound, Prog.bind_of_ok idealRan, cmdResponsev, Prog.bind_of_ok ran]
      generalize lexer : middle.l = l at relates
      cases relates with
      | returns value args => exact ⟨_, rfl⟩
      | goesOn args there => exact ⟨middle, by rw [lexer]; exact there, rfl⟩
      | missed args there =>
          have skip := skipExtra_agrees (e := middle) extraP (by rw [lexer]; exact there)
          dsimp only
          generalize idealSkip : Text.skipLine extraP unread = idealSkipped at skip
          generalize skipRan : skipExtra extraP middle = skipped at skip
          cases skip with
          | stopped stop left right =>
              rw [Prog.bind_of_error idealSkip, Prog.bind_of_error skipRan]
              exact ⟨_, rfl⟩
          | returned value there =>
              rw [Prog.bind_of_ok idealSkip, Prog.bind_of_ok skipRan]
              exact ⟨_, there, rfl⟩

/-- With no argument left another round waits or fetches past the arguments. -/
theorem cmdResponsev_past {canFailP extraP : Bool} {args : VaList} {rest : List UInt8}
    (past : args.cells.length ≤ args.next) (there : AtEol input rest e.l) (fuel : Nat) :
    ∃ after, cmdResponsev canFailP extraP Text.connect (fuel + 1) args e =
      .error (if Text.dropWs rest = [] then .blocked else pastArgs) after := by
  obtain ⟨eols, tail, rfl, all, here⟩ := there
  rw [Text.dropWs_eols all]
  have line := here.matchLinev Text.connect args
  rw [Text.matchLinev_connect_past past] at line
  have tries : ∃ l, onLex (responsevTries canFailP Text.connect args) e =
      .error (if Text.dropWs tail = [] then .blocked else pastArgs) { e with l := l } := by
    by_cases none : Text.dropWs tail = []
    · rw [if_pos none] at line ⊢
      obtain ⟨l, stopped⟩ := line.right_of_error
      exact ⟨l, onLex_of_error (Prog.bind_of_error stopped)⟩
    · rw [if_neg none] at line ⊢
      obtain ⟨l, stopped⟩ := line.right_of_error
      exact ⟨l, onLex_of_error (Prog.bind_of_error stopped)⟩
  obtain ⟨l, stopped⟩ := tries
  exact ⟨_, by rw [cmdResponsev, Prog.bind_of_error stopped]⟩

/-- No other pointer is asked for, and when the call returns 1 the channel of the
line that matched is stored through the one that was passed. -/
structure OnlyThroughCh (text : List UInt8)
    (outcome : Outcome (EspT LexSimple γ) (Bool × List Cell)) : Prop where
  fetched : ∀ after, outcome ≠ .error pastArgs after
  stored : ∀ {cells after}, outcome = .ok (true, cells) after →
    ∃ skipped taken rest channel, text = skipped ++ (taken ++ rest) ∧
      (skipped = [] ∨ ∃ lines e, skipped = lines ++ [e] ∧ isEolCh e = true) ∧
        ShownLine Text.connect [channel] taken ∧ cells = [.uint channel]

theorem OnlyThroughCh.stopped {text : List UInt8} {stop : Stop} (other : stop ≠ pastArgs)
    (after : EspT LexSimple γ) : OnlyThroughCh text (.error stop after) where
  fetched := by
    intro last same
    cases same
    exact other rfl
  stored := by
    intro cells last same
    cases same

theorem OnlyThroughCh.failed {text : List UInt8} (cells : List Cell)
    (after : EspT LexSimple γ) : OnlyThroughCh text (.ok (false, cells) after) where
  fetched := by
    intro last same
    cases same
  stored := by
    intro cells last same
    cases same

/-- A first line that matches is the line whose channel is stored. -/
theorem OnlyThroughCh.matched {channel : UInt32} {text rest : List UInt8} {args : VaList}
    (line : Text.matchLinev Text.connect ⟨[.uint channel], 0⟩ text = .ok (true, args) rest)
    (after : EspT LexSimple γ) : OnlyThroughCh text (.ok (true, args.cells) after) where
  fetched := fun _ same => by cases same
  stored := by
    intro cells last same
    cases same
    have uints : VaList.Uints ⟨[.uint channel], 0⟩ := fun cell mem =>
      ⟨channel, List.mem_singleton.mp mem⟩
    obtain ⟨taken, split, took⟩ := matchLinev_took uints line
    obtain ⟨values, shown, stores⟩ := took.shown rfl
    have count : values.length = 1 := by
      obtain ⟨_, _, _, _, _, _, shows, _⟩ := shown
      exact shows.count
    obtain ⟨value, rfl⟩ := List.length_eq_one_iff.mp count
    exact ⟨[], taken, rest, value, split, .inl rfl, shown, stores.single rfl⟩

/-- For every stream, `cmd_responsef` stores only through `ch`, however long it
runs, if and only if no attempt that failed is followed by another one that
finds something to look at. -/
theorem cmd_responsef_only_through_ch_iff (here : At input unread e.l) (canFailP extraP : Bool)
    (channel : UInt32) :
    (∀ fuel, OnlyThroughCh unread
      (cmdResponsef fuel canFailP extraP Text.connect [.uint channel] e)) ↔
      ¬ Text.TriesAgain channel extraP unread := by
  constructor
  · rintro only ⟨missed, rest, skipped, more⟩
    obtain ⟨args, round⟩ := Text.responsevRound_of_skipped canFailP missed skipped
    have step := cmdResponsev_round canFailP extraP ⟨[.uint channel], 0⟩ here 1
    rw [round] at step
    obtain ⟨after, there, ran⟩ := step
    cases Text.firstRound_of_returned round with
    | again _ _ past =>
        obtain ⟨last, stopped⟩ := cmdResponsev_past past there 0
        rw [if_neg more, ← ran] at stopped
        exact (only 2).fetched last (Prog.bind_of_error stopped)
  · intro once fuel
    cases fuel with
    | zero => exact .stopped (by decide) e
    | succ fuel =>
        have step := cmdResponsev_round canFailP extraP ⟨[.uint channel], 0⟩ here fuel
        cases round : Text.responsevRound canFailP extraP ⟨[.uint channel], 0⟩ unread with
        | error stop last =>
            rw [round] at step
            obtain ⟨after, ran⟩ := step
            rw [cmdResponsef, Prog.bind_of_error ran]
            exact .stopped (Text.within_responsevRound canFailP extraP channel round) after
        | ok result rest =>
            rw [round] at step
            cases Text.firstRound_of_returned round with
            | matched line =>
                obtain ⟨after, ran⟩ := step
                rw [cmdResponsef, Prog.bind_of_ok ran]
                exact .matched line after
            | failed args =>
                obtain ⟨after, ran⟩ := step
                rw [cmdResponsef, Prog.bind_of_ok ran]
                exact .failed args.cells after
            | again missed skipped past =>
                obtain ⟨after, there, ran⟩ := step
                have nothing : Text.dropWs rest = [] :=
                  Classical.byContradiction fun more => once ⟨missed, rest, skipped, more⟩
                cases fuel with
                | zero =>
                    rw [cmdResponsef, Prog.bind_of_error ran]
                    exact .stopped (by decide) after
                | succ fuel =>
                    obtain ⟨last, blocked⟩ := cmdResponsev_past past there fuel
                    rw [if_pos nothing] at blocked
                    rw [cmdResponsef, Prog.bind_of_error (ran.trans blocked)]
                    exact .stopped (by decide) last

end

/-- The response in two bursts, with a blank line in front of it. -/
def connectLine : List Poll :=
  [.data ⟨ascii "\r\n3,CON", by decide, by decide⟩, .quiet,
    .data ⟨ascii "NECT\r\nOK\r\n", by decide, by decide⟩]

theorem cmd_responsef_only_through_ch_iff_of_connectLine :
    OnlyThroughCh (arriving connectLine) (cmdResponsef 1 false false Text.connect [.uint 9]
      (⟨⟨LexSimple.init, connectLine⟩, true, (), [], [], []⟩ : EspT LexSimple Unit)) := by
  have here : At (arriving connectLine) (arriving connectLine) ⟨LexSimple.init, connectLine⟩ :=
    At.init (h := connectLine) (by decide)
  have once : ¬ Text.TriesAgain 9 false (arriving connectLine) := by
    rintro ⟨⟨⟨args, line⟩, _⟩, _⟩
    have found : returned? (Text.matchLinev Text.connect ⟨[.uint 9], 0⟩ (arriving connectLine)) =
        some (true, ⟨[.uint 3], 1⟩) := by decide +kernel
    rw [line] at found
    cases found
  exact (cmd_responsef_only_through_ch_iff
    (e := ⟨⟨LexSimple.init, connectLine⟩, true, (), [], [], []⟩) here false false 9).mpr once 1

/-- A busy message in front of the response. -/
def busyThenConnect : List Poll :=
  [.data ⟨ascii "busy p...\r\n3,CONNECT\r\n", by decide, by decide⟩]

/-- The second attempt fetches an argument that was not passed.  If a pointer lies
there, the channel is stored through that one, and `ch` keeps what the first
attempt left. -/
theorem busy_line_moves_the_cursor :
    stopped? (cmdResponsef 2 false false Text.connect [.uint 9]
      (⟨⟨LexSimple.init, busyThenConnect⟩, true, (), [], [], []⟩ : EspT LexSimple Unit)) =
        some pastArgs ∧
      returned? (cmdResponsev false false Text.connect 2 ⟨[.uint 9, .uint 5], 0⟩
        (⟨⟨LexSimple.init, busyThenConnect⟩, true, (), [], [], []⟩ : EspT LexSimple Unit)) =
          some (true, ⟨[.uint 0, .uint 3], 2⟩) := by
  decide +kernel

end Cs140e.Esp
