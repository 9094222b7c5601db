import Cs140e.Esp.Commands
import Cs140e.Esp.Text

/-!
# The response loops on a list of bytes

On the text the loops always look at a line with something on it: the blank
lines in front of it are dropped at once.
-/

namespace Cs140e.Esp.Text

open Cs140e.Library

def matchBusy : Prog (List UInt8) Bool :=
  either (matchLineOnly (ascii "busy s...")) (matchLineOnly (ascii "busy p..."))

def responseTries (endString : List UInt8) (canFailP : Bool) :
    Prog (List UInt8) (Option (Option Bool)) := do
  if ← matchLineOnly endString then
    pure (some (some true))
  else if ← matchTok (ascii "ERROR") then
    if canFailP then
      pure (some (some false))
    else
      throw (.panic "fatal error: got an error\n")
  else if ← matchBusy then
    pure (some none)
  else
    pure none

/-- `cmd_echo_line` without the echo. -/
def takeLine : Prog (List UInt8) Unit := do
  let _ ← getNonblankLine lineBuf 1024
  pure ()

/-- A line that was not expected is taken or fatal. -/
def skipExtra (extraP : Bool) : Prog (List UInt8) Unit := do
  if extraP then
    takeLine
  else
    let (n, _) ← getNonblankLine lineBuf 1024
    if n = 0 then
      throw (.panic "expected non-blank!\n")
    else
      throw (.panic "specified no extra output for command.  hit some:<%s>.\n")

/-- Go on with the next line that has something on it. -/
def nextLine : Prog (List UInt8) (Option Bool) := do
  modify dropBlankLines
  pure none

def responseRound (endString : List UInt8) (canFailP extraP : Bool) :
    Prog (List UInt8) (Option Bool) := do
  match ← responseTries endString canFailP with
  | some (some result) => pure (some result)
  | some none => nextLine
  | none =>
      skipExtra extraP
      nextLine

/-- `cmd_ack` while `handle_ooo_msg` echoes a line. -/
def ackRound (cmd : List UInt8) : Prog (List UInt8) (Option Bool) := do
  if ← matchLineOnly cmd then
    pure (some true)
  else if ← matchBusy then
    nextLine
  else
    takeLine
    nextLine

/-! ## Leading blank lines make no difference to a match -/

/-- A match was tried with and without the leading blank lines. -/
inductive TriedBoth (text : List UInt8) : Bool → List UInt8 → List UInt8 → Prop where
  | found (rest : List UInt8) : TriedBoth text true rest rest
  | missed : TriedBoth text false (dropBlankLines text) text

theorem skipLeading_dropBlankLines (text : List UInt8) :
    skipLeading (dropBlankLines text) = skipLeading text := by
  rw [skipLeading_eq, skipLeading_eq, dropWs_dropBlankLines]

theorem matchv_dropBlankLines (fmt : List UInt8) (args : VaList) (text : List UInt8) :
    AgreeOn (fun (result : Bool × VaList) => TriedBoth text result.1)
      (matchv fmt args (dropBlankLines text)) (matchv fmt args text) := by
  rw [matchv, Prog.bind_of_ok (Prog.get_apply _), Prog.bind_of_ok (Prog.get_apply _)]
  cases skipped : skipLeading text with
  | error stop rest =>
      rw [Prog.bind_of_error skipped,
        Prog.bind_of_error ((skipLeading_dropBlankLines text).trans skipped)]
      exact .stopped _ _ _
  | ok _ rest =>
      rw [Prog.bind_of_ok skipped,
        Prog.bind_of_ok ((skipLeading_dropBlankLines text).trans skipped)]
      cases looped : matchvLoop fmt true false false args rest with
      | error stop after =>
          rw [Prog.bind_of_error looped, Prog.bind_of_error looped]
          exact .stopped _ _ _
      | ok result after =>
          rw [Prog.bind_of_ok looped, Prog.bind_of_ok looped]
          obtain ⟨matched, mustMatch, argsAfter⟩ := result
          cases matched with
          | true => exact .returned (true, argsAfter) (.found after)
          | false =>
              cases mustMatch with
              | true => exact .stopped _ _ _
              | false => exact .returned (false, argsAfter) .missed

theorem matchLinev_dropBlankLines (fmt : List UInt8) (args : VaList) (text : List UInt8) :
    AgreeOn (fun (result : Bool × VaList) => TriedBoth text result.1)
      (matchLinev fmt args (dropBlankLines text)) (matchLinev fmt args text) := by
  refine (matchv_dropBlankLines fmt args text).bind fun ⟨res, argsAfter⟩ left right tried => ?_
  cases tried with
  | missed => exact .returned (false, argsAfter) .missed
  | found =>
      cases ended : matchEol left with
      | error stop after =>
          change AgreeOn _ ((matchEol >>= _) left) ((matchEol >>= _) left)
          rw [Prog.bind_of_error ended]
          exact .stopped _ _ _
      | ok found after =>
          change AgreeOn _ ((matchEol >>= _) left) ((matchEol >>= _) left)
          rw [Prog.bind_of_ok ended]
          cases found with
          | true => exact .returned (true, argsAfter) (.found after)
          | false => exact .stopped _ _ _

theorem matchLine_dropBlankLines (fmt : List UInt8) (cells : List Cell) (text : List UInt8) :
    AgreeOn (fun (result : Bool × List Cell) => TriedBoth text result.1)
      (matchLine fmt cells (dropBlankLines text)) (matchLine fmt cells text) :=
  (matchLinev_dropBlankLines fmt ⟨cells, 0⟩ text).bind fun (res, args) _ _ tried =>
    .returned (res, args.cells) tried

theorem matchLineOnly_dropBlankLines (fmt text : List UInt8) :
    AgreeOn (TriedBoth text) (matchLineOnly fmt (dropBlankLines text)) (matchLineOnly fmt text) :=
  (matchLine_dropBlankLines fmt [] text).bind fun (res, _) _ _ tried => .returned res tried

theorem matchTok_dropBlankLines (tok text : List UInt8) :
    AgreeOn (TriedBoth text) (matchTok tok (dropBlankLines text)) (matchTok tok text) := by
  rw [matchTok, Prog.bind_of_ok (Prog.get_apply _), Prog.bind_of_ok (Prog.get_apply _)]
  cases skipped : skipLeading text with
  | error stop rest =>
      rw [Prog.bind_of_error skipped,
        Prog.bind_of_error ((skipLeading_dropBlankLines text).trans skipped)]
      exact .stopped _ _ _
  | ok _ rest =>
      rw [Prog.bind_of_ok skipped,
        Prog.bind_of_ok ((skipLeading_dropBlankLines text).trans skipped)]
      cases empty : tok.isEmpty with
      | true => exact .stopped _ _ _
      | false =>
          have checked : Prog.assertThat (!false) "*p" rest = .ok () rest := rfl
          rw [Prog.bind_of_ok checked, Prog.bind_of_ok checked]
          cases looped : tokLoop tok rest with
          | error stop after =>
              rw [Prog.bind_of_error looped, Prog.bind_of_error looped]
              exact .stopped _ _ _
          | ok found after =>
              rw [Prog.bind_of_ok looped, Prog.bind_of_ok looped]
              cases found with
              | false => exact .returned false .missed
              | true =>
                  rw [if_pos rfl, if_pos rfl]
                  cases more : tokGoesOn tok after with
                  | error stop last =>
                      rw [Prog.bind_of_error more, Prog.bind_of_error more]
                      exact .stopped _ _ _
                  | ok goesOn last =>
                      rw [Prog.bind_of_ok more, Prog.bind_of_ok more]
                      cases goesOn with
                      | true => exact .returned false .missed
                      | false => exact .returned true (.found last)

/-! ## What a match takes -/

theorem matchEol_shorter {text rest : List UInt8} (ended : matchEol text = .ok true rest) :
    rest.length < text.length := by
  rw [matchEol] at ended
  cases kept : dropBlanks text with
  | nil => simp only [kept] at ended; cases ended
  | cons c tail =>
      have suffix : dropBlanks text <:+ text := List.dropWhile_suffix _
      have bound := suffix.length_le
      rw [kept, List.length_cons] at bound
      simp only [kept] at ended
      split at ended
      · cases ended
        omega
      · cases ended

theorem matchv_suffix {fmt text rest : List UInt8} {args after : VaList} {res : Bool}
    (returned : matchv fmt args text = .ok (res, after) rest) : rest <:+ text := by
  rw [matchv, Prog.bind_of_ok (Prog.get_apply _)] at returned
  obtain ⟨_, middle, skipped, returned⟩ := Prog.ok_of_bind_ok returned
  obtain ⟨result, last, looped, returned⟩ := Prog.ok_of_bind_ok returned
  have reads := (reads_matchvLoop fmt true false false args looped).trans
    (Input.reads_skipWhile _ skipped)
  split at returned
  · cases returned
    exact reads
  · split at returned
    · cases returned
    · cases returned
      exact List.suffix_refl _

theorem matchLinev_shorter {fmt text rest : List UInt8} {args after : VaList}
    (returned : matchLinev fmt args text = .ok (true, after) rest) :
    rest.length < text.length := by
  obtain ⟨⟨res, argsAfter⟩, middle, matched, returned⟩ := Prog.ok_of_bind_ok returned
  have bound := (matchv_suffix matched).length_le
  cases res with
  | false => cases returned
  | true =>
      obtain ⟨ended, last, eol, returned⟩ := Prog.ok_of_bind_ok returned
      cases ended with
      | false => cases returned
      | true =>
          cases returned
          have := matchEol_shorter eol
          omega

theorem matchLineOnly_shorter {fmt text rest : List UInt8}
    (returned : matchLineOnly fmt text = .ok true rest) : rest.length < text.length := by
  obtain ⟨⟨res, cells⟩, middle, matched, returned⟩ := Prog.ok_of_bind_ok returned
  obtain ⟨⟨found, args⟩, last, line, matched⟩ := Prog.ok_of_bind_ok matched
  cases matched
  cases returned
  exact matchLinev_shorter line

/-- The line loop stops at an end of line unless it runs out of rounds. -/
theorem lineLoop_shorter {rounds i : Nat} {buf text rest after : List UInt8} {count : Nat}
    (returned : lineLoop rounds i buf text = .ok (count, after) rest) :
    count = i + rounds ∨ rest.length < text.length := by
  induction rounds generalizing i buf text with
  | zero =>
      cases returned
      exact .inl rfl
  | succ rounds ih =>
      obtain ⟨ended, middle, eol, returned⟩ := Prog.ok_of_bind_ok returned
      cases ended with
      | true =>
          cases returned
          exact .inr (matchEol_shorter eol)
      | false =>
          obtain ⟨c, tail, took, returned⟩ := Prog.ok_of_bind_ok returned
          obtain ⟨stored, same, poked, returned⟩ := Prog.ok_of_bind_ok returned
          have eolBound := (reads_matchEol eol).length_le
          have nextBound := (Input.reads_next took).length_le
          have pokeBound := (reads_poke buf i c poked).length_le
          rcases ih returned with full | shorter
          · exact .inl (by omega)
          · exact .inr (by omega)

theorem getNonblankLine_shorter {buf text rest : List UInt8} {nbytes : Nat}
    {result : Nat × List UInt8} (returned : getNonblankLine buf nbytes text = .ok result rest) :
    rest.length < text.length := by
  obtain ⟨blank, middle, eol, returned⟩ := Prog.ok_of_bind_ok returned
  cases blank with
  | true =>
      cases returned
      exact matchEol_shorter eol
  | false =>
      obtain ⟨_, skipped, skip, returned⟩ := Prog.ok_of_bind_ok returned
      obtain ⟨⟨i, line⟩, last, looped, returned⟩ := Prog.ok_of_bind_ok returned
      have eolBound := (reads_matchEol eol).length_le
      have skipBound := (Input.reads_skipWhile _ skip).length_le
      dsimp only at returned
      split at returned
      · cases returned
      · case isFalse notFull =>
          obtain ⟨stored, same, poked, returned⟩ := Prog.ok_of_bind_ok returned
          cases returned
          have pokeBound := (reads_poke line i 0 poked).length_le
          rcases lineLoop_shorter looped with full | shorter
          · exact absurd (full.trans (Nat.zero_add _)) notFull
          · omega

end Cs140e.Esp.Text
