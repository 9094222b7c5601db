import Cs140e.Library.Takes
import Cs140e.Esp.Format
import Cs140e.Esp.RunOnText

/-!
# What a command has consumed

If `cmd_ack` or one of the response loops returns, the last thing it has taken
from the esp is the line it was waiting for.
-/

namespace Cs140e.Esp

open Cs140e.Library

variable {γ α : Type} {input : List UInt8}

/-- The input of the lexer. -/
def lexView (input : List UInt8) : InputView (Lex LexSimple) UInt8 where
  inv := fun l => At input l.unread l
  unread := Lex.unread
  frame := fun _ _ => True
  frame_refl := fun _ => trivial
  frame_trans := fun _ _ => trivial

/-- The input of a command that sends nothing. -/
def espView (γ : Type) (input : List UInt8) : InputView (EspT LexSimple γ) UInt8 where
  inv := OnInput input
  unread := fun e => e.l.unread
  frame := fun e after => after.sent = e.sent
  frame_refl := fun _ => rfl
  frame_trans := fun left right => right.trans left

theorem takes_onLex {program : Prog (Lex LexSimple) α} {piece : α → List UInt8 → Prop}
    (takes : Takes (lexView input) program piece) :
    Takes (espView γ input) (onLex program) piece := by
  intro e after value kept returned
  cases ran : program e.l with
  | error stop l =>
      rw [onLex_of_error ran] at returned
      cases returned
  | ok result l =>
      rw [onLex_of_ok ran] at returned
      cases returned
      obtain ⟨taken, took, holds⟩ := takes kept ran
      exact ⟨taken, ⟨took.kept, rfl, took.split⟩, holds⟩

/-- What the program takes on the text it takes on the lexer, up to further
end-of-line bytes. -/
theorem takes_of_agree (ideal : Prog (List UInt8) α) {program : Prog (Lex LexSimple) α}
    {piece : α → List UInt8 → Prop}
    (agree : ∀ {unread l}, At input unread l → Agree (AtEol input) (ideal unread) (program l))
    (took : ∀ {text rest value}, ideal text = .ok value rest →
      ∃ taken, text = taken ++ rest ∧ piece value taken)
    (more : ∀ {value taken eols}, piece value taken → (∀ c ∈ eols, isEolCh c = true) →
      piece value (taken ++ eols)) :
    Takes (lexView input) program piece := by
  intro l after value kept returned
  have both := agree kept
  rw [returned] at both
  obtain ⟨rest, idealReturned, eols, tail, rfl, all, there⟩ := both.left_of_ok
  obtain ⟨taken, split, holds⟩ := took idealReturned
  refine ⟨taken ++ eols, ⟨there.self, trivial, ?_⟩, more holds all⟩
  change l.unread = taken ++ eols ++ after.unread
  rw [split, there.unread_eq, List.append_assoc]

/-- As `takes_of_agree`, for a program that takes exactly the same. -/
theorem takes_of_agree_exact {ideal : Prog (List UInt8) α} {program : Prog (Lex LexSimple) α}
    {piece : α → List UInt8 → Prop}
    (agree : ∀ {unread l}, At input unread l → Agree (At input) (ideal unread) (program l))
    (took : ∀ {text rest value}, ideal text = .ok value rest →
      ∃ taken, text = taken ++ rest ∧ piece value taken) :
    Takes (lexView input) program piece := by
  intro l after value kept returned
  have both := agree kept
  rw [returned] at both
  obtain ⟨rest, idealReturned, there⟩ := both.left_of_ok
  obtain ⟨taken, split, holds⟩ := took idealReturned
  refine ⟨taken, ⟨there.self, trivial, ?_⟩, holds⟩
  change l.unread = taken ++ after.unread
  rw [split, there.unread_eq]

/-! ## Matches -/

/-- What a match of a line has stored, and what it has taken if it succeeded. -/
structure LineTook (fmt : List UInt8) (args : VaList) (result : Bool × VaList)
    (taken : List UInt8) : Prop where
  uints : result.2.Uints
  length : result.2.cells.length = args.cells.length
  shown : result.1 = true → ∃ values, ShownLine fmt values taken ∧ Stores args values result.2

theorem matchv_took {fmt : List UInt8} {args after : VaList} {res : Bool}
    {text rest : List UInt8} (uints : args.Uints)
    (returned : Text.matchv fmt args text = .ok (res, after) rest) :
    after.Uints ∧ after.cells.length = args.cells.length ∧
      (res = true → ∃ ws values shown, text = ws ++ (shown ++ rest) ∧
        (∀ c ∈ ws, Text.isWsCh c = true) ∧ Shows fmt values shown ∧ Stores args values after) := by
  rw [Text.matchv, Prog.bind_of_ok (Prog.get_apply _)] at returned
  obtain ⟨_, middle, skipped, loops⟩ := Prog.ok_of_bind_ok returned
  obtain ⟨ws, rfl, all⟩ := Input.skipWhile_took skipped
  obtain ⟨result, last, looped, ends⟩ := Prog.ok_of_bind_ok loops
  have loop := Text.matchvLoop_took uints looped
  split at ends
  · case isTrue matched =>
      cases ends
      refine ⟨loop.uints, loop.length, fun _ => ?_⟩
      obtain ⟨values, shown, rfl, shows, stores⟩ := loop.shown matched
      exact ⟨ws, values, shown, rfl, all, shows, stores⟩
  · split at ends
    · cases ends
    · cases ends
      exact ⟨loop.uints, loop.length, fun matched => absurd matched Bool.false_ne_true⟩

theorem matchLinev_took {fmt : List UInt8} {args : VaList} {result : Bool × VaList}
    {text rest : List UInt8} (uints : args.Uints)
    (returned : Text.matchLinev fmt args text = .ok result rest) :
    ∃ taken, text = taken ++ rest ∧ LineTook fmt args result taken := by
  obtain ⟨⟨res, after⟩, middle, matched, ends⟩ := Prog.ok_of_bind_ok returned
  obtain ⟨uintsAfter, length, shown⟩ := matchv_took uints matched
  have suffix := Text.matchv_suffix matched
  cases res with
  | false =>
      cases ends
      obtain ⟨taken, split⟩ := suffix
      exact ⟨taken, split.symm, uintsAfter, length,
        fun found => absurd found Bool.false_ne_true⟩
  | true =>
      obtain ⟨ended, last, eol, ends⟩ := Prog.ok_of_bind_ok ends
      cases ended with
      | false => cases ends
      | true =>
          cases ends
          obtain ⟨ws, values, text, rfl, allWs, shows, stores⟩ := shown rfl
          obtain ⟨blanks, e, rfl, allBlank, isEol⟩ := Text.matchEol_took eol
          refine ⟨ws ++ (text ++ (blanks ++ [e])), ?_, uintsAfter, length, fun _ =>
            ⟨values, ⟨ws, text, blanks, [e], rfl, allWs, shows, allBlank, ?_, ?_⟩, stores⟩⟩
          · simp only [List.append_assoc, List.singleton_append]
          · exact List.cons_ne_nil e []
          · intro c mem
            rw [List.mem_singleton.mp mem]
            exact isEol

theorem takes_matchLinev (fmt : List UInt8) {args : VaList} (uints : args.Uints) :
    Takes (lexView input) (matchLinev fmt args) (LineTook fmt args) := by
  refine takes_of_agree (Text.matchLinev fmt args)
    (fun here => (here.matchLinev fmt args).mono fun _ _ _ after => after.atEol)
    (matchLinev_took uints) ?_
  intro result taken eols took all
  refine ⟨took.uints, took.length, fun found => ?_⟩
  obtain ⟨values, line, stores⟩ := took.shown found
  exact ⟨values, line.append all, stores⟩

theorem uints_nil (next : Nat) : VaList.Uints ⟨[], next⟩ :=
  fun _ mem => absurd mem List.not_mem_nil

/-- Without arguments nothing is stored. -/
theorem Stores.nil_of_nil {next : Nat} {values : List UInt32} {after : VaList}
    (stores : Stores ⟨[], next⟩ values after) : values = [] := by
  cases stores with
  | nil => rfl
  | cons room rest => exact absurd room (Nat.not_lt_zero _)

theorem takes_matchLineOnly (fmt : List UInt8) :
    Takes (lexView input) (matchLineOnly fmt) fun found taken =>
      found = true → ShownLine fmt [] taken := by
  have line : Takes (lexView input) (matchLine fmt []) fun result taken =>
      result.1 = true → ShownLine fmt [] taken := by
    refine (takes_matchLinev fmt (uints_nil 0)).bind fun (res, args) taken took => ?_
    refine Takes.pure fun found => ?_
    obtain ⟨values, shown, stores⟩ := took.shown found
    rw [stores.nil_of_nil] at shown
    rwa [List.append_nil]
  refine line.bind fun (res, cells) taken shown => ?_
  refine Takes.pure ?_
  rwa [List.append_nil]

theorem tokLoop_took {tok text rest : List UInt8}
    (returned : Text.tokLoop tok text = .ok true rest) : text = tok ++ rest := by
  induction tok generalizing text with
  | nil =>
      cases returned
      rfl
  | cons p tok ih =>
      obtain ⟨c, middle, took, compares⟩ := Prog.ok_of_bind_ok returned
      cases text with
      | nil => cases took
      | cons d text =>
          cases took
          split at compares
          · cases compares
          · case isFalse equal =>
              rw [not_not] at equal
              rw [ih compares, equal]
              rfl

theorem tokGoesOn_took {tok text rest : List UInt8} {goesOn : Bool}
    (returned : Text.tokGoesOn tok text = .ok goesOn rest) : rest = text := by
  rw [Text.tokGoesOn] at returned
  split at returned
  · obtain ⟨c, middle, front, ends⟩ := Prog.ok_of_bind_ok returned
    cases text with
    | nil => cases front
    | cons d text =>
        cases front
        cases ends
        rfl
  · cases returned
    rfl

theorem matchTok_took {tok text rest : List UInt8} {found : Bool}
    (returned : Text.matchTok tok text = .ok found rest) :
    ∃ taken, text = taken ++ rest ∧ (found = true → ShownTok tok taken) := by
  rw [Text.matchTok, Prog.bind_of_ok (Prog.get_apply _)] at returned
  obtain ⟨_, middle, skipped, checks⟩ := Prog.ok_of_bind_ok returned
  obtain ⟨ws, rfl, all⟩ := Input.skipWhile_took skipped
  obtain ⟨_, checked, asserted, loops⟩ := Prog.ok_of_bind_ok checks
  obtain ⟨_, rfl⟩ := Prog.holds_of_assertThat_ok asserted
  obtain ⟨matched, last, looped, ends⟩ := Prog.ok_of_bind_ok loops
  have nothing : ∃ taken, ws ++ checked = taken ++ (ws ++ checked) ∧
      (false = true → ShownTok tok taken) := ⟨[], rfl, fun found => absurd found Bool.false_ne_true⟩
  cases matched with
  | false =>
      cases ends
      exact nothing
  | true =>
      have split := tokLoop_took looped
      obtain ⟨goesOn, after, looked, ends⟩ := Prog.ok_of_bind_ok ends
      have same := tokGoesOn_took looked
      subst same
      cases goesOn with
      | true =>
          cases ends
          exact nothing
      | false =>
          cases ends
          exact ⟨ws ++ tok, by rw [split, List.append_assoc], fun _ => ⟨ws, rfl, all⟩⟩

theorem takes_matchTok (tok : List UInt8) :
    Takes (lexView input) (matchTok tok) fun found taken => found = true → ShownTok tok taken :=
  takes_of_agree_exact (fun here => here.matchTok tok) matchTok_took

/-- A program of which only the input it reads matters. -/
theorem takes_of_reads {ideal : Prog (List UInt8) α} {program : Prog (Lex LexSimple) α}
    (agree : ∀ {unread l}, At input unread l → Agree (AtEol input) (ideal unread) (program l))
    (reads : Input.Reads ideal) : Takes (lexView input) program fun _ _ => True := by
  refine takes_of_agree _ agree (fun returned => ?_) fun _ _ => trivial
  obtain ⟨taken, split⟩ := reads returned
  exact ⟨taken, split.symm, trivial⟩

theorem takes_matchBlankLine : Takes (lexView input) matchBlankLine fun _ _ => True :=
  takes_of_reads (fun here => here.matchBlankLine.mono fun _ _ _ after => after.atEol)
    Text.reads_matchEol

theorem takes_getNonblankLine (buf : List UInt8) (nbytes : Nat) :
    Takes (lexView input) (getNonblankLine buf nbytes) fun _ _ => True :=
  takes_of_reads (fun here => here.getNonblankLine buf nbytes) (Text.reads_getNonblankLine _ _)

theorem takes_matchBusy : Takes (lexView input) matchBusy fun _ _ => True :=
  (takes_matchLineOnly _).bind fun _ _ _ => Takes.ite (fun _ => Takes.pure trivial)
    fun _ => (takes_matchLineOnly _).mono fun _ _ _ => trivial

/-! ## Lines that were not expected -/

theorem takes_cmdEchoLine (msg : String) :
    Takes (espView γ input) (cmdEchoLine msg) fun _ _ => True := by
  refine (takes_onLex (takes_getNonblankLine lineBuf 1024)).bind fun (n, buf) _ _ => ?_
  refine Takes.ite (fun _ => ?_) fun _ => Takes.pure trivial
  intro e after value kept returned
  cases returned
  exact ⟨[], ⟨kept, rfl, rfl⟩, trivial⟩

theorem takes_skipExtra (extraP : Bool) :
    Takes (espView γ input) (skipExtra extraP) fun _ _ => True := by
  cases extraP with
  | true => exact takes_cmdEchoLine "skipping extra:"
  | false =>
      refine (takes_onLex takes_matchBlankLine).bind fun _ _ _ => ?_
      refine Takes.ite (fun _ => Takes.pure trivial) fun _ => ?_
      refine (takes_onLex (takes_getNonblankLine lineBuf 1024)).bind fun (n, buf) _ _ => ?_
      exact Takes.ite (fun _ => Takes.throw _) fun _ => Takes.throw _

/-- The handlers of the repository send nothing. -/
theorem takes_handleOooMsg (handler : HandleOooMsg) :
    Takes (espView γ input) handler.run fun _ _ => True := by
  cases handler with
  | default =>
      refine (Takes.get (fun _ _ => True) fun _ => trivial).bind fun e _ _ => ?_
      exact Takes.ite (fun _ => Takes.throw _) fun _ => takes_cmdEchoLine _
  | server => exact Takes.throw _
  | client => exact Takes.throw _

/-! ## The loops -/

open Takes (Behind)

theorem takes_ackRound (handler : HandleOooMsg) (cmd : List UInt8) :
    Takes (espView γ input) (ackRound handler.run cmd) fun result taken =>
      ∀ value, result = some value → Behind (ShownLine cmd []) taken := by
  refine (takes_onLex (takes_matchLineOnly cmd)).bind fun found taken shown => ?_
  refine Takes.ite (fun yes => Takes.pure fun _ _ => ?_) fun _ => ?_
  · rw [List.append_nil]
    exact .of (shown yes)
  refine (takes_onLex takes_matchBlankLine).bind fun _ _ _ => ?_
  refine Takes.ite (fun _ => Takes.pure fun _ goesOn => nomatch goesOn) fun _ => ?_
  refine (takes_onLex takes_matchBusy).bind fun _ _ _ => ?_
  refine Takes.ite (fun _ => Takes.pure fun _ goesOn => nomatch goesOn) fun _ => ?_
  exact (takes_handleOooMsg handler).bind fun _ _ _ => Takes.pure fun _ goesOn => nomatch goesOn

/-- The last line `cmd_ack` takes is the echo of the command. -/
theorem takes_cmdAck (fuel : Nat) (handler : HandleOooMsg) (cmd : List UInt8) :
    Takes (espView γ input) (cmdAck fuel handler.run cmd) fun _ taken =>
      Behind (ShownLine cmd []) taken :=
  Takes.repeatUntil (fun _ => ShownLine cmd []) (takes_ackRound handler cmd) fuel

theorem takes_responseTries (endString : List UInt8) :
    Takes (lexView input) (responseTries endString false) fun result taken =>
      ∀ value, result = some (some value) → ShownLine endString [] taken := by
  refine (takes_matchLineOnly endString).bind fun found taken shown => ?_
  refine Takes.ite (fun yes => Takes.pure fun _ _ => ?_) fun _ => ?_
  · rw [List.append_nil]
    exact shown yes
  refine (takes_matchTok _).bind fun _ _ _ => ?_
  refine Takes.ite (fun _ => Takes.throw _) fun _ => ?_
  refine takes_matchBusy.bind fun _ _ _ => ?_
  exact Takes.ite (fun _ => Takes.pure fun _ ends => nomatch ends)
    fun _ => Takes.pure fun _ ends => nomatch ends

/-- The last line `cmd_response` takes when it cannot fail is the expected end. -/
theorem takes_cmdResponse (fuel : Nat) (endString : List UInt8) (extraP : Bool) :
    Takes (espView γ input) (cmdResponse fuel endString false extraP) fun _ taken =>
      Behind (ShownLine endString []) taken := by
  refine Takes.repeatUntil (fun _ => ShownLine endString []) ?_ fuel
  refine (takes_onLex (takes_responseTries endString)).bind fun tried taken shown => ?_
  cases tried with
  | some result =>
      refine Takes.pure fun value ends => ?_
      rw [List.append_nil]
      exact .of (shown value (by rw [ends]))
  | none =>
      exact (takes_skipExtra extraP).bind fun _ _ _ => Takes.pure fun _ goesOn => nomatch goesOn

theorem takes_matchSuspicious : Takes (lexView input) matchSuspicious fun _ _ => True := by
  have tok : ∀ tok, Takes (lexView input) (matchTok tok) fun _ _ => True :=
    fun tok => (takes_matchTok tok).mono fun _ _ _ => trivial
  refine (tok _).bind fun _ _ _ => Takes.ite (fun _ => Takes.pure trivial) fun _ => ?_
  refine (tok _).bind fun _ _ _ => Takes.ite (fun _ => Takes.pure trivial) fun _ => ?_
  exact (tok _).bind fun _ _ _ => Takes.ite (fun _ => Takes.pure trivial) fun _ => tok _

/-- What a round of `cmd_responsev` has stored, and taken if it ends the loop. -/
theorem takes_responsevTries (fmt : List UInt8) {args : VaList} (uints : args.Uints) :
    Takes (lexView input) (responsevTries false fmt args) fun result taken =>
      result.2.Uints ∧ result.2.cells.length = args.cells.length ∧
        ∀ value, result.1 = some (some value) →
          ∃ values, ShownLine fmt values taken ∧ Stores args values result.2 := by
  refine (takes_matchLinev fmt uints).bind fun (found, after) taken took => ?_
  have stored := And.intro took.uints took.length
  refine Takes.ite (fun yes => Takes.pure ⟨took.uints, took.length, fun _ _ => ?_⟩) fun _ => ?_
  · rw [List.append_nil]
    exact took.shown yes
  refine (takes_matchTok _).bind fun _ _ _ => ?_
  refine Takes.ite (fun _ => Takes.throw _) fun _ => ?_
  refine takes_matchSuspicious.bind fun _ _ _ => ?_
  refine Takes.ite (fun _ => Takes.throw _) fun _ => ?_
  refine takes_matchBusy.bind fun _ _ _ => ?_
  exact Takes.ite (fun _ => Takes.pure ⟨stored.1, stored.2, fun _ ends => nomatch ends⟩)
    fun _ => Takes.pure ⟨stored.1, stored.2, fun _ ends => nomatch ends⟩

/-- The last line `cmd_responsev` takes when it cannot fail shows the format,
and its numbers are stored. -/
theorem takes_cmdResponsev (extraP : Bool) (fmt : List UInt8) (fuel : Nat) {args : VaList}
    (uints : args.Uints) :
    Takes (espView γ input) (cmdResponsev false extraP fmt fuel args) fun result taken =>
      ∃ start values, start.cells.length = args.cells.length ∧
        Behind (ShownLine fmt values) taken ∧ Stores start values result.2 := by
  induction fuel generalizing args with
  | zero => exact Takes.throw .outOfFuel
  | succ fuel ih =>
      refine (takes_onLex (takes_responsevTries fmt uints)).bind
        fun (tried, after) taken ⟨uintsAfter, length, shown⟩ => ?_
      have again : Takes (espView γ input) (cmdResponsev false extraP fmt fuel after)
          fun result taken => ∃ start values, start.cells.length = args.cells.length ∧
            Behind (ShownLine fmt values) taken ∧ Stores start values result.2 := by
        rw [← length]
        exact ih uintsAfter
      cases tried with
      | none =>
          refine (takes_skipExtra extraP).bind fun _ more _ => again.mono ?_
          rintro result last ⟨start, values, same, behind, stores⟩
          exact ⟨start, values, same, (behind.after more).after taken, stores⟩
      | some ends =>
          cases ends with
          | none =>
              refine again.mono ?_
              rintro result last ⟨start, values, same, behind, stores⟩
              exact ⟨start, values, same, behind.after taken, stores⟩
          | some value =>
              obtain ⟨values, line, stores⟩ := shown value rfl
              refine Takes.pure ⟨args, values, rfl, ?_, stores⟩
              rw [List.append_nil]
              exact .of line

end Cs140e.Esp
