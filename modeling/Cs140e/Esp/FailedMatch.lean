import Cs140e.Esp.ParseOnText

/-!
# A failed match consumes nothing

However many blank lines an attempt skipped and however much it read in, the
program after it finds the lexer where it was and reads the same characters.
-/

namespace Cs140e.Esp

open Cs140e.Library

/-! ## On the text -/

namespace Text

variable {text rest : List UInt8}

theorem matchEol_failed (failed : matchEol text = .ok false rest) : rest = text := by
  rw [matchEol] at failed
  split at failed
  · cases failed
  · split at failed
    · cases failed
    · cases failed
      rfl

theorem matchTok_failed {tok : List UInt8} (failed : matchTok tok text = .ok false rest) :
    rest = text := by
  rw [matchTok, Prog.bind_of_ok (Prog.get_apply _)] at failed
  obtain ⟨_, skipped, _, failed⟩ := Prog.ok_of_bind_ok failed
  obtain ⟨_, checked, _, failed⟩ := Prog.ok_of_bind_ok failed
  obtain ⟨found, looped, _, failed⟩ := Prog.ok_of_bind_ok failed
  cases found with
  | false =>
      cases failed
      rfl
  | true =>
      obtain ⟨goesOn, looked, _, failed⟩ := Prog.ok_of_bind_ok failed
      cases goesOn with
      | true =>
          cases failed
          rfl
      | false => cases failed

theorem matchv_failed {fmt : List UInt8} {args after : VaList}
    (failed : matchv fmt args text = .ok (false, after) rest) : rest = text := by
  rw [matchv, Prog.bind_of_ok (Prog.get_apply _)] at failed
  obtain ⟨_, skipped, _, failed⟩ := Prog.ok_of_bind_ok failed
  obtain ⟨result, looped, _, failed⟩ := Prog.ok_of_bind_ok failed
  split at failed
  · cases failed
  · split at failed
    · cases failed
    · cases failed
      rfl

theorem matchLinev_failed {fmt : List UInt8} {args after : VaList}
    (failed : matchLinev fmt args text = .ok (false, after) rest) : rest = text := by
  obtain ⟨⟨res, argsAfter⟩, middle, matched, failed⟩ := Prog.ok_of_bind_ok failed
  cases res with
  | false =>
      cases failed
      exact matchv_failed matched
  | true =>
      obtain ⟨ended, last, _, failed⟩ := Prog.ok_of_bind_ok failed
      cases ended with
      | false => cases failed
      | true => cases failed

end Text

/-! ## On the lexer -/

/-- The next characters, one `lex_getc` after the other. -/
def lexGetcs {B : Type} [Lexer B] : Nat → Prog (Lex B) (List UInt8)
  | 0 => pure []
  | count + 1 => do
      let c ← lexGetc
      let rest ← lexGetcs count
      pure (c :: rest)

def Text.nexts : Nat → Prog (List UInt8) (List UInt8)
  | 0 => pure []
  | count + 1 => do
      let c ← Input.next
      let rest ← Text.nexts count
      pure (c :: rest)

/-- A call that may fail to match. -/
inductive Attempt where
  | token (tok : List UInt8)
  | formatv (fmt : List UInt8) (args : VaList)
  | part (fmt : List UInt8) (cells : List Cell)
  | line (fmt : List UInt8) (cells : List Cell)
  | linev (fmt : List UInt8) (args : VaList)
  | blankLine

/-- What the call returns. -/
def Attempt.run {B : Type} [Lexer B] : Attempt → Prog (Lex B) Bool
  | .token tok => matchTok tok
  | .formatv fmt args => do
      let (found, _) ← matchv fmt args
      pure found
  | .part fmt cells => do
      let (found, _) ← matchPart fmt cells
      pure found
  | .line fmt cells => do
      let (found, _) ← matchLine fmt cells
      pure found
  | .linev fmt args => do
      let (found, _) ← matchLinev fmt args
      pure found
  | .blankLine => matchBlankLine

namespace At

variable {input unread : List UInt8} {l after : Lex LexSimple}

/-- The state of a lexer that is in bounds and has room for what is coming. -/
theorem of_inBounds (inBounds : l.buf.pos ≤ l.buf.n)
    (small : l.buf.n + (arriving l.h).length < lexMaxbuf) :
    ∃ input unread, At input unread l := by
  obtain ⟨⟨pos, stream⟩, h⟩ := l
  have front : (stream.take pos).length = pos := List.length_take_of_le inBounds
  refine ⟨_, _, stream.take pos, stream.drop pos, ?_, rfl, rfl, ?_⟩
  · rw [front, List.take_append_drop]
  · rw [← List.append_assoc, List.take_append_drop, List.length_append]
    exact small

theorem pos_eq (here : At input unread l) : l.buf.pos + unread.length = input.length := by
  obtain ⟨before, buffered, bufEq, unreadEq, inputEq, _⟩ := here
  rw [bufEq, inputEq, List.length_append]

/-- Only what is unread decides which characters come. -/
theorem getcs (count : Nat) (here : At input unread l) :
    Agree (At input) (Text.nexts count unread) (lexGetcs count l) := by
  induction count generalizing unread l with
  | zero => exact .returned [] here
  | succ count ih =>
      exact here.getc.bind fun c _ _ took => (ih took).bind fun rest _ _ last =>
        .returned (c :: rest) last

theorem matchv_failed {fmt : List UInt8} {args argsAfter : VaList} (here : At input unread l)
    (failed : Esp.matchv fmt args l = .ok (false, argsAfter) after) : At input unread after := by
  have agree := here.matchv fmt args
  rw [failed] at agree
  obtain ⟨rest, failed, there⟩ := agree.left_of_ok
  exact Text.matchv_failed failed ▸ there

theorem matchLinev_failed {fmt : List UInt8} {args argsAfter : VaList} (here : At input unread l)
    (failed : Esp.matchLinev fmt args l = .ok (false, argsAfter) after) :
    At input unread after := by
  have agree := here.matchLinev fmt args
  rw [failed] at agree
  obtain ⟨rest, failed, there⟩ := agree.left_of_ok
  cases there with
  | failed there => exact Text.matchLinev_failed failed ▸ there

/-- A failed attempt leaves the same bytes unread. -/
theorem attempt_failed (attempt : Attempt) (here : At input unread l)
    (failed : attempt.run l = .ok false after) : At input unread after := by
  cases attempt with
  | token tok =>
      have agree := here.matchTok tok
      rw [show Esp.matchTok tok l = .ok false after from failed] at agree
      obtain ⟨rest, failed, there⟩ := agree.left_of_ok
      exact Text.matchTok_failed failed ▸ there
  | blankLine =>
      have agree := here.matchBlankLine
      rw [show Esp.matchBlankLine l = .ok false after from failed] at agree
      obtain ⟨rest, failed, there⟩ := agree.left_of_ok
      cases there with
      | failed there => exact Text.matchEol_failed failed ▸ there
  | formatv fmt args =>
      obtain ⟨⟨found, argsAfter⟩, middle, matched, failed⟩ := Prog.ok_of_bind_ok failed
      cases failed
      exact here.matchv_failed matched
  | linev fmt args =>
      obtain ⟨⟨found, argsAfter⟩, middle, matched, failed⟩ := Prog.ok_of_bind_ok failed
      cases failed
      exact here.matchLinev_failed matched
  | part fmt cells =>
      obtain ⟨⟨found, cellsAfter⟩, middle, matched, failed⟩ := Prog.ok_of_bind_ok failed
      cases failed
      obtain ⟨⟨res, argsAfter⟩, last, matched, failed⟩ := Prog.ok_of_bind_ok matched
      cases failed
      exact here.matchv_failed matched
  | line fmt cells =>
      obtain ⟨⟨found, cellsAfter⟩, middle, matched, failed⟩ := Prog.ok_of_bind_ok failed
      cases failed
      obtain ⟨⟨res, argsAfter⟩, last, matched, failed⟩ := Prog.ok_of_bind_ok matched
      cases failed
      exact here.matchLinev_failed matched

end At

/-- After a failed attempt the lexer stands where it stood, and all characters
come, or fail to come, as if the attempt had not been made. -/
theorem failed_match_consumes_nothing (attempt : Attempt) {l after : Lex LexSimple}
    (inBounds : l.buf.pos ≤ l.buf.n) (small : l.buf.n + (arriving l.h).length < lexMaxbuf)
    (failed : attempt.run l = .ok false after) :
    after.buf.pos = l.buf.pos ∧
      ∀ count, Agree (fun _ _ => True) (lexGetcs count after) (lexGetcs count l) := by
  obtain ⟨input, unread, here⟩ := At.of_inBounds inBounds small
  have there := here.attempt_failed attempt failed
  refine ⟨?_, fun count => ?_⟩
  · have := here.pos_eq
    have := there.pos_eq
    omega
  · exact ((there.getcs count).join (here.getcs count)).mono fun _ _ _ _ => trivial

/-- A blank line and the start of a token, and only later the byte that differs. -/
def tokenCut : List Poll :=
  [.data ⟨ascii "\r\n A", by decide, by decide⟩, .quiet,
    .data ⟨ascii "T+\r\n", by decide, by decide⟩]

theorem failed_match_consumes_nothing_of_tokenCut :
    ∃ after, (Attempt.token (ascii "AB")).run ⟨LexSimple.init, tokenCut⟩ = .ok false after ∧
      after.buf.pos = 0 ∧
        ∀ count, Agree (fun _ _ => True) (lexGetcs count after)
          (lexGetcs count ⟨LexSimple.init, tokenCut⟩) := by
  have missed : returned? ((Attempt.token (ascii "AB")).run ⟨LexSimple.init, tokenCut⟩) =
      some false := by decide +kernel
  cases ran : (Attempt.token (ascii "AB")).run ⟨LexSimple.init, tokenCut⟩ with
  | error stop after =>
      rw [ran] at missed
      cases missed
  | ok found after =>
      rw [ran] at missed
      cases missed
      exact ⟨after, rfl, failed_match_consumes_nothing _ (by decide) (by decide +kernel) ran⟩

end Cs140e.Esp
