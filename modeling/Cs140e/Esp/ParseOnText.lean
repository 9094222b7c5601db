import Cs140e.Esp.LexSimple
import Cs140e.Esp.Text

/-!
# The parser does on the lexer what it does on the text

One lemma for each function of the parser: with the lexer that keeps all input
it returns, waits and panics as the same function does on the list of unread
bytes, however they arrive.  Only `match_eol` may take further end-of-line
bytes, and a failed match gives back everything.
-/

namespace Cs140e.Esp

open Cs140e.Library
open Text (isWsCh dropBlanks dropWs)

/-- `rest` is left unread, up to end-of-line bytes that were already buffered. -/
inductive AtEol (input rest : List UInt8) (l : Lex LexSimple) : Prop where
  | intro (eols tail : List UInt8) (restEq : rest = eols ++ tail)
      (all : ∀ c ∈ eols, isEolCh c = true) (here : At input tail l)

/-- `rest` is left unread, and only bytes of `start` were consumed. -/
def Since (input start rest : List UInt8) (l : Lex LexSimple) : Prop :=
  At input rest l ∧ rest <:+ start

theorem At.atEol {input rest : List UInt8} {l : Lex LexSimple} (here : At input rest l) :
    AtEol input rest l :=
  ⟨[], rest, rfl, fun _ mem => absurd mem List.not_mem_nil, here⟩

theorem At.since {input rest : List UInt8} {l : Lex LexSimple} (here : At input rest l) :
    Since input rest rest l :=
  ⟨here, List.suffix_refl rest⟩

/-- After a success end-of-line bytes may be gone, after a failure nothing is. -/
inductive AfterLine (input : List UInt8) : Bool → List UInt8 → Lex LexSimple → Prop where
  | matched {rest : List UInt8} {l : Lex LexSimple} (here : AtEol input rest l) :
      AfterLine input true rest l
  | failed {rest : List UInt8} {l : Lex LexSimple} (here : At input rest l) :
      AfterLine input false rest l

theorem AfterLine.atEol {input rest : List UInt8} {found : Bool} {l : Lex LexSimple}
    (after : AfterLine input found rest l) : AtEol input rest l := by
  cases after with
  | matched here => exact here
  | failed here => exact here.atEol

variable {input start unread : List UInt8} {l : Lex LexSimple} {α : Type}

/-- A part of a program that only reads does not lose what came before it. -/
theorem Since.step {left : Prog (List UInt8) α} {right : Prog (Lex LexSimple) α}
    (since : Since input start unread l) (agree : Agree (At input) (left unread) (right l))
    (reads : Input.Reads left) : Agree (Since input start) (left unread) (right l) := by
  generalize leftEq : left unread = leftOutcome at agree
  generalize rightEq : right l = rightOutcome at agree
  cases agree with
  | returned value relates =>
      exact .returned value ⟨relates, (reads leftEq).trans since.2⟩
  | stopped stop left right => exact .stopped stop left right

/-- Restoring a checkpoint gives back everything since. -/
theorem Since.restore {now : Lex LexSimple} (here : At input start l)
    (since : Since input start unread now) :
    Agree (At input) ((set start : Prog (List UInt8) Unit) unread)
      (lexRestoreCkpt l.buf.pos now) := by
  obtain ⟨after, ran, back⟩ := here.restoreCkpt since.1 since.2
  rw [ran]
  exact .returned () back

namespace At

/-! ## Blanks -/

theorem fuel (here : At input unread l) : lexFuel l = .ok (unread.length + 1) l := by
  obtain ⟨buf, h⟩ := l
  obtain ⟨before, buffered, rfl, unreadEq, inputEq, small⟩ := here
  have storage := LexSimple.storage before (by
    rw [inputEq, List.length_append] at small
    omega)
  have counted : lexNstream (⟨⟨before.length, before ++ buffered⟩, h⟩ : Lex LexSimple) =
      .ok buffered.length ⟨⟨before.length, before ++ buffered⟩, h⟩ :=
    onBuf_of_ok (storage.nstream rfl) h
  rw [lexFuel, Prog.bind_of_ok counted, Prog.bind_of_ok (Prog.get_apply _), unreadEq,
    List.length_append]
  rfl

theorem dropc (here : At input unread l) :
    Agree (At input) (Text.dropc unread) (lexDropc l) :=
  here.getc.bind fun _ _ _ there => .returned () there

theorem isSpace_cons {c : UInt8} {rest : List UInt8} (here : At input (c :: rest) l) :
    ∃ after, isSpace l = .ok (isSpaceCh c) after ∧ At input (c :: rest) after := by
  obtain ⟨after, ran, there⟩ := here.peek.right_of_ok
  exact ⟨after, by rw [isSpace, Prog.bind_of_ok ran]; rfl, there⟩

theorem isEol_cons {c : UInt8} {rest : List UInt8} (here : At input (c :: rest) l) :
    ∃ after, isEol l = .ok (isEolCh c) after ∧ At input (c :: rest) after := by
  obtain ⟨after, ran, there⟩ := here.peek.right_of_ok
  exact ⟨after, by rw [isEol, Prog.bind_of_ok ran]; rfl, there⟩

theorem dropc_cons {c : UInt8} {rest : List UInt8} (here : At input (c :: rest) l) :
    ∃ after, lexDropc l = .ok () after ∧ At input rest after := by
  obtain ⟨after, ran, there⟩ := here.getc.right_of_ok
  exact ⟨after, by rw [lexDropc, Prog.bind_of_ok ran]; rfl, there⟩

theorem skipBlankLoop {fuel : Nat} (here : At input unread l) (enough : unread.length < fuel) :
    Agree (At input) (Text.skipBlankSpace unread) (Prog.whileLoop isSpace lexDropc fuel l) := by
  induction unread generalizing l fuel with
  | nil =>
      obtain ⟨after, blocked⟩ := here.peek.right_of_error
      cases fuel with
      | zero => cases enough
      | succ fuel =>
          have stopped : isSpace l = .error .blocked after := by
            rw [isSpace, Prog.bind_of_error blocked]
          rw [Prog.whileLoop_of_error fuel stopped]
          exact .stopped _ _ _
  | cons c rest ih =>
      cases fuel with
      | zero => cases enough
      | succ fuel =>
          obtain ⟨middle, tested, same⟩ := here.isSpace_cons
          cases verdict : isSpaceCh c with
          | false =>
              rw [verdict] at tested
              rw [Prog.whileLoop_of_false fuel tested, Text.skipBlankSpace,
                Input.skipWhile_cons_of_not verdict]
              exact .returned () same
          | true =>
              rw [verdict] at tested
              obtain ⟨after, dropped, there⟩ := same.dropc_cons
              rw [Prog.whileLoop_of_true fuel tested dropped, Text.skipBlankSpace,
                Input.skipWhile_cons_of verdict]
              exact ih there (Nat.lt_of_succ_lt_succ enough)

theorem skipBlankSpace (here : At input unread l) :
    Agree (At input) (Text.skipBlankSpace unread) (skipBlankSpace l) := by
  rw [Esp.skipBlankSpace, Prog.bind_of_ok here.fuel]
  exact here.skipBlankLoop (Nat.lt_succ_self _)

theorem skipBlankSpace_nil (here : At input unread l) (none : dropBlanks unread = []) :
    ∃ after, Esp.skipBlankSpace l = .error .blocked after := by
  have agree := here.skipBlankSpace
  rw [Text.skipBlankSpace_eq, if_pos none] at agree
  exact agree.right_of_error

theorem skipBlankSpace_cons {c : UInt8} {rest : List UInt8} (here : At input unread l)
    (some : dropBlanks unread = c :: rest) :
    ∃ after, Esp.skipBlankSpace l = .ok () after ∧ At input (c :: rest) after := by
  have agree := here.skipBlankSpace
  rw [Text.skipBlankSpace_eq, some, if_neg (List.cons_ne_nil c rest)] at agree
  exact agree.right_of_ok

/-! ## Ends of lines -/

/-- The second loop of `match_eol` takes some of the end-of-line bytes that come. -/
theorem eolLoop {fuel : Nat} (here : At input unread l) (enough : unread.length < fuel) :
    ∃ after, Prog.whileLoop eolBuffered lexDropc fuel l = .ok () after ∧
      AtEol input unread after := by
  induction fuel generalizing unread l with
  | zero => cases enough
  | succ fuel ih =>
      obtain ⟨buffered, counted, known⟩ := here.nstream
      cases buffered with
      | nil =>
          have tested : eolBuffered l = .ok false l := by
            rw [eolBuffered, Prog.bind_of_ok counted]
            rfl
          exact ⟨l, Prog.whileLoop_of_false fuel tested, here.atEol⟩
      | cons c buffered =>
          obtain ⟨behind, rfl⟩ := known
          obtain ⟨middle, peeked, same⟩ := here.isEol_cons
          have tested : eolBuffered l = .ok (isEolCh c) middle := by
            rw [eolBuffered, Prog.bind_of_ok counted]
            exact peeked
          cases verdict : isEolCh c with
          | false =>
              rw [verdict] at tested
              exact ⟨middle, Prog.whileLoop_of_false fuel tested, same.atEol⟩
          | true =>
              rw [verdict] at tested
              obtain ⟨dropped, ran, there⟩ := same.dropc_cons
              obtain ⟨after, rest, eols, tail, restEq, all, last⟩ :=
                ih there (Nat.lt_of_succ_lt_succ enough)
              refine ⟨after, by rw [Prog.whileLoop_of_true fuel tested ran, rest],
                c :: eols, tail, congrArg (c :: ·) restEq, ?_, last⟩
              · intro d mem
                rcases List.mem_cons.mp mem with rfl | mem
                · exact verdict
                · exact all d mem

theorem matchEol (here : At input unread l) :
    AgreeOn (AfterLine input) (Text.matchEol unread) (matchEol l) := by
  rw [Esp.matchEol, Prog.bind_of_ok (At.getCkpt l), Text.matchEol]
  cases text : dropBlanks unread with
  | nil =>
      obtain ⟨after, blocked⟩ := here.skipBlankSpace_nil text
      rw [Prog.bind_of_error blocked]
      exact .stopped _ _ _
  | cons c rest =>
      obtain ⟨skipped, ran, there⟩ := here.skipBlankSpace_cons text
      obtain ⟨peeked, tested, same⟩ := there.isEol_cons
      rw [Prog.bind_of_ok ran, Prog.bind_of_ok tested]
      cases verdict : isEolCh c with
      | false =>
          have consumed : c :: rest <:+ unread := by
            rw [← text]
            exact List.dropWhile_suffix _
          obtain ⟨after, back, restored⟩ := here.restoreCkpt same consumed
          rw [if_neg Bool.false_ne_true, Prog.bind_of_ok back]
          simp only [verdict, Bool.false_eq_true, if_false]
          exact .returned false (.failed restored)
      | true =>
          obtain ⟨dropped, took, behind⟩ := same.dropc_cons
          obtain ⟨after, looped, last⟩ := behind.eolLoop (Nat.lt_succ_self _)
          rw [if_pos rfl, Prog.bind_of_ok took, Prog.bind_of_ok behind.fuel,
            Prog.bind_of_ok looped]
          simp only [verdict, if_true]
          exact .returned true (.matched last)

/-- A blank line is blanks before an end of line, so the text needs no second name. -/
theorem matchBlankLine (here : At input unread l) :
    AgreeOn (AfterLine input) (Text.matchEol unread) (matchBlankLine l) := by
  rw [Esp.matchBlankLine, Prog.bind_of_ok (At.getCkpt l)]
  cases text : dropBlanks unread with
  | nil =>
      obtain ⟨after, blocked⟩ := here.skipBlankSpace_nil text
      rw [Prog.bind_of_error blocked, Text.matchEol]
      simp only [text]
      exact .stopped _ _ _
  | cons c rest =>
      obtain ⟨skipped, ran, there⟩ := here.skipBlankSpace_cons text
      have agree := there.matchEol
      rw [Prog.bind_of_ok ran]
      rw [Text.matchEol] at agree ⊢
      simp only [text, Text.dropBlanks_cons rest (Text.head_of_dropBlanks text)] at agree ⊢
      cases verdict : isEolCh c with
      | true =>
          simp only [verdict, if_true] at agree ⊢
          obtain ⟨after, matched, found⟩ := agree.right_of_ok
          rw [Prog.bind_of_ok matched, if_pos rfl]
          exact .returned true found
      | false =>
          simp only [verdict, Bool.false_eq_true, if_false] at agree ⊢
          obtain ⟨middle, failed, same⟩ := agree.right_of_ok
          cases same with
          | failed same =>
              have consumed : c :: rest <:+ unread := by
                rw [← text]
                exact List.dropWhile_suffix _
              obtain ⟨after, back, restored⟩ := here.restoreCkpt same consumed
              rw [Prog.bind_of_ok failed, if_neg Bool.false_ne_true, Prog.bind_of_ok back]
              exact .returned false (.failed restored)

/-- Skipping blank lines stops in front of a line with something on it. -/
theorem blankLinesLoop {fuel : Nat} (here : At input unread l) (enough : unread.length < fuel) :
    (dropWs unread = [] ∧
      ∃ after, Prog.whileLoop Esp.matchBlankLine (pure ()) fuel l = .error .blocked after) ∨
      ∃ rest after, Prog.whileLoop Esp.matchBlankLine (pure ()) fuel l = .ok () after ∧
        At input rest after ∧ dropBlanks rest = dropWs unread ∧ dropBlanks rest ≠ [] := by
  induction fuel generalizing unread l with
  | zero => cases enough
  | succ fuel ih =>
      have agree := here.matchBlankLine
      rw [Text.matchEol] at agree
      cases text : dropBlanks unread with
      | nil =>
          simp only [text] at agree
          obtain ⟨after, blocked⟩ := agree.right_of_error
          exact .inl ⟨Text.dropWs_nil_of_dropBlanks text, after,
            Prog.whileLoop_of_error fuel blocked⟩
      | cons c rest =>
          simp only [text] at agree
          cases verdict : isEolCh c with
          | false =>
              simp only [verdict, Bool.false_eq_true, if_false] at agree
              obtain ⟨after, failed, same⟩ := agree.right_of_ok
              cases same with
              | failed same =>
                  refine .inr ⟨unread, after, Prog.whileLoop_of_false fuel failed, same, ?_, ?_⟩
                  · rw [text, Text.dropWs_of_not_eol text verdict]
                  · rw [text]
                    exact List.cons_ne_nil c rest
          | true =>
              simp only [verdict, if_true] at agree
              obtain ⟨middle, matched, found⟩ := agree.right_of_ok
              cases found with
              | matched found =>
                  obtain ⟨eols, tail, rfl, all, there⟩ := found
                  have shorter : tail.length < fuel := by
                    have suffix : dropBlanks unread <:+ unread := List.dropWhile_suffix _
                    have := suffix.length_le
                    rw [text, List.length_cons, List.length_append] at this
                    omega
                  have same : dropWs unread = dropWs tail := by
                    rw [Text.dropWs_of_eol text verdict, Text.dropWs_eols all]
                  rw [Prog.whileLoop_of_true fuel matched (Prog.pure_apply () middle), same]
                  exact ih there shorter

theorem skipLeading (here : At input unread l) :
    Agree (At input) (Text.skipLeading unread) (skipLeading l) := by
  have looped : Esp.skipBlankLines l =
      Prog.whileLoop Esp.matchBlankLine (pure ()) (unread.length + 1) l := by
    rw [Esp.skipBlankLines, Prog.bind_of_ok here.fuel]
  rw [Esp.skipLeading, Text.skipLeading_eq]
  rcases here.blankLinesLoop (Nat.lt_succ_self _) with ⟨none, after, blocked⟩ |
    ⟨rest, middle, ran, there, same, some⟩
  · rw [if_pos none, Prog.bind_of_error (looped.trans blocked)]
    exact .stopped _ _ _
  · obtain ⟨c, tail, text⟩ := List.exists_cons_of_ne_nil some
    obtain ⟨after, skipped, last⟩ := there.skipBlankSpace_cons text
    rw [if_neg (by rw [← same]; exact some), Prog.bind_of_ok (looped.trans ran), skipped, ← same,
      text]
    exact .returned () last

theorem skipLeading_since (here : At input unread l) :
    Agree (Since input unread) (Text.skipLeading unread) (Esp.skipLeading l) :=
  here.since.step here.skipLeading (Input.reads_skipWhile _)

/-! ## Tokens -/

theorem tokLoop (tok : List UInt8) (here : At input unread l) :
    Agree (At input) (Text.tokLoop tok unread) (tokLoop tok l) := by
  induction tok generalizing unread l with
  | nil => exact .returned true here
  | cons p rest ih =>
      refine here.getc.bind fun c next after there => ?_
      by_cases differs : p ≠ c
      · rw [if_pos differs, if_pos differs]
        exact .returned false there
      · rw [if_neg differs, if_neg differs]
        exact ih there

theorem tokGoesOn (tok : List UInt8) (here : At input unread l) :
    Agree (At input) (Text.tokGoesOn tok unread) (tokGoesOn tok l) := by
  rw [Text.tokGoesOn, Esp.tokGoesOn]
  by_cases letter : isalpha (tok.getLastD 0) = true
  · rw [if_pos letter, if_pos letter]
    exact here.peek.bind fun c next after there => .returned _ there
  · rw [if_neg letter, if_neg letter]
    exact .returned false here

/-- Give back everything since the checkpoint and return. -/
theorem giveBack {now : Lex LexSimple} {rest : List UInt8} (here : At input unread l)
    (since : Since input unread rest now) (value : α) :
    Agree (At input) ((do set unread; pure value : Prog (List UInt8) α) rest)
      ((do lexRestoreCkpt l.buf.pos; pure value : Prog (Lex LexSimple) α) now) :=
  (Since.restore here since).bind fun _ _ _ there => .returned value there

theorem assertThat (holds : Bool) (message : String) (since : Since input start unread l) :
    Agree (Since input start) ((Prog.assertThat holds message : Prog (List UInt8) Unit) unread)
      ((Prog.assertThat holds message : Prog (Lex LexSimple) Unit) l) := by
  cases holds with
  | true => exact .returned () since
  | false => exact .stopped _ _ _

theorem matchTok (tok : List UInt8) (here : At input unread l) :
    Agree (At input) (Text.matchTok tok unread) (matchTok tok l) := by
  rw [Text.matchTok, Esp.matchTok, Prog.bind_of_ok (At.getCkpt l),
    Prog.bind_of_ok (Prog.get_apply unread)]
  refine here.skipLeading_since.bind fun _ _ _ skipped => ?_
  refine (At.assertThat _ _ skipped).bind fun _ _ _ checked => ?_
  refine (checked.step (checked.1.tokLoop tok) (Text.reads_tokLoop tok)).bind
    fun found _ _ looped => ?_
  cases found with
  | false => exact here.giveBack looped false
  | true =>
      refine (looped.step (looped.1.tokGoesOn tok) (Text.reads_tokGoesOn tok)).bind
        fun goesOn _ _ last => ?_
      cases goesOn with
      | false => exact .returned true last.1
      | true => exact here.giveBack last false

/-! ## Numbers and quoted strings -/

theorem uintLoop {fuel : Nat} (x : UInt32) (i : Nat) (here : At input unread l)
    (enough : unread.length < fuel) :
    Agree (At input) (Text.uintLoop x i unread) (uintLoop fuel x i l) := by
  induction unread generalizing l fuel x i with
  | nil =>
      cases fuel with
      | zero => cases enough
      | succ fuel =>
          obtain ⟨after, blocked⟩ := here.peek.right_of_error
          rw [Esp.uintLoop, Prog.bind_of_error blocked]
          exact .stopped _ _ _
  | cons c rest ih =>
      cases fuel with
      | zero => cases enough
      | succ fuel =>
          obtain ⟨peeked, looked, same⟩ := here.peek.right_of_ok
          rw [Esp.uintLoop, Text.uintLoop, Prog.bind_of_ok looked]
          by_cases digit : isdigit c = true
          · obtain ⟨after, took, there⟩ := same.getc.right_of_ok
            rw [if_pos digit, if_pos digit, Prog.bind_of_ok took]
            exact ih _ _ there (Nat.lt_of_succ_lt_succ enough)
          · rw [if_neg digit, if_neg digit]
            exact .returned (x, i) same

theorem matchUint (here : At input unread l) :
    Agree (At input) (Text.matchUint unread) (matchUint l) := by
  refine here.skipBlankSpace.bind fun _ rest skipped there => ?_
  rw [Prog.bind_of_ok there.fuel]
  exact (there.uintLoop 0 0 (Nat.lt_succ_self _)).bind fun _ _ _ last => .returned _ last

theorem poke (buf : List UInt8) (i : Nat) (c : UInt8) (here : At input unread l) :
    Agree (At input) (poke buf i c unread) (poke buf i c l) := by
  rw [Esp.poke, Esp.poke]
  split
  · exact .returned _ here
  · exact .stopped _ _ _

theorem stringLoop (rounds i : Nat) (out : List UInt8) (here : At input unread l) :
    Agree (At input) (Text.stringLoop rounds i out unread) (stringLoop rounds i out l) := by
  induction rounds generalizing unread l i out with
  | zero => exact .stopped _ _ _
  | succ rounds ih =>
      refine here.getc.bind fun c _ _ there => ?_
      by_cases quote : c = 34
      · rw [if_pos quote, if_pos quote]
        exact there.poke out i 0
      · rw [if_neg quote, if_neg quote]
        exact (there.poke out i c).bind fun _ _ _ last => ih _ _ last

theorem matchLiteralString (out : List UInt8) (nbytes : Nat) (here : At input unread l) :
    Agree (At input) (Text.matchLiteralString out nbytes unread)
      (matchLiteralString out nbytes l) := by
  refine here.skipBlankSpace.bind fun _ _ _ skipped => skipped.peek.bind fun c _ _ peeked => ?_
  by_cases other : c ≠ 34
  · rw [if_pos other, if_pos other]
    exact .returned _ peeked
  · rw [if_neg other, if_neg other]
    exact peeked.dropc.bind fun _ _ _ dropped =>
      (dropped.stringLoop nbytes 0 out).bind fun _ _ _ last => .returned _ last

/-! ## Formats -/

theorem arg (args : VaList) (here : At input unread l) :
    Agree (At input) ((args.arg : Prog (List UInt8) (Cell × VaList)) unread)
      ((args.arg : Prog (Lex LexSimple) (Cell × VaList)) l) := by
  rw [VaList.arg, VaList.arg]
  cases args.cells[args.next]? with
  | some cell => exact .returned _ here
  | none => exact .stopped _ _ _

theorem matchConversion (conversion : UInt8) (args : VaList) (here : At input unread l) :
    Agree (At input) (Text.matchConversion conversion args unread)
      (matchConversion conversion args l) := by
  rw [Text.matchConversion, Esp.matchConversion]
  by_cases string : conversion = 115
  · rw [if_pos string, if_pos string]
    refine (here.arg args).bind fun ⟨cell, args⟩ _ _ fetched => ?_
    cases cell with
    | uint value => exact .stopped _ _ _
    | str s =>
        exact (fetched.matchLiteralString s 32).bind fun _ _ _ last => .returned _ last
  · rw [if_neg string, if_neg string]
    by_cases number : conversion = 117
    · rw [if_pos number, if_pos number]
      refine (here.arg args).bind fun ⟨cell, args⟩ _ _ fetched => ?_
      cases cell with
      | uint value => exact fetched.matchUint.bind fun _ _ _ last => .returned _ last
      | str s => exact .stopped _ _ _
    · rw [if_neg number, if_neg number]
      exact .stopped _ _ _

theorem matchvLoop (fmt : List UInt8) (first percent mustMatch : Bool) (args : VaList)
    (here : At input unread l) :
    Agree (At input) (Text.matchvLoop fmt first percent mustMatch args unread)
      (matchvLoop fmt first percent mustMatch args l) := by
  induction fmt generalizing unread l first percent mustMatch args with
  | nil =>
      cases percent with
      | false => exact .returned _ here
      | true => exact .stopped _ _ _
  | cons f fmt ih =>
      cases percent with
      | true =>
          refine (here.matchConversion f args).bind fun ⟨found, args⟩ _ _ converted => ?_
          cases found with
          | true => exact ih _ _ _ _ converted
          | false => exact .returned _ converted
      | false =>
          rw [Text.matchvLoop, Esp.matchvLoop]
          cases eol : isEolCh f with
          | true => exact .stopped _ _ _
          | false =>
              refine here.peek.bind fun c _ _ peeked => ?_
              by_cases atEnd : isEolCh c = true
              · rw [if_pos atEnd, if_pos atEnd]
                exact .returned _ peeked
              rw [if_neg atEnd, if_neg atEnd]
              by_cases literal : f ≠ 37
              · rw [if_pos literal, if_pos literal]
                by_cases printed : f ≠ 32
                · rw [if_pos printed, if_pos printed]
                  refine peeked.skipBlankSpace.bind fun _ _ _ skipped => ?_
                  refine skipped.getc.bind fun d _ _ took => ?_
                  by_cases differs : d ≠ f
                  · rw [if_pos differs, if_pos differs]
                    exact .returned _ took
                  · rw [if_neg differs, if_neg differs]
                    exact ih _ _ _ _ took
                · rw [if_neg printed, if_neg printed]
                  exact ih _ _ _ _ peeked
              · rw [if_neg literal, if_neg literal]
                exact ih _ _ _ _ peeked

theorem matchv (fmt : List UInt8) (args : VaList) (here : At input unread l) :
    Agree (At input) (Text.matchv fmt args unread) (matchv fmt args l) := by
  rw [Text.matchv, Esp.matchv, Prog.bind_of_ok (At.getCkpt l),
    Prog.bind_of_ok (Prog.get_apply unread)]
  refine here.skipLeading_since.bind fun _ _ _ skipped => ?_
  refine (skipped.step (skipped.1.matchvLoop fmt true false false args)
    (Text.reads_matchvLoop fmt true false false args)).bind fun result _ _ looped => ?_
  obtain ⟨matched, mustMatch, argsAfter⟩ := result
  cases matched with
  | true => exact .returned _ looped.1
  | false =>
      cases mustMatch with
      | true => exact .stopped _ _ _
      | false => exact here.giveBack looped (false, argsAfter)

theorem matchPart (fmt : List UInt8) (cells : List Cell) (here : At input unread l) :
    Agree (At input) (Text.matchPart fmt cells unread) (matchPart fmt cells l) :=
  (here.matchv fmt ⟨cells, 0⟩).bind fun _ _ _ last => .returned _ last

theorem matchLinev (fmt : List UInt8) (args : VaList) (here : At input unread l) :
    AgreeOn (fun (result : Bool × VaList) => AfterLine input result.1)
      (Text.matchLinev fmt args unread) (matchLinev fmt args l) := by
  refine (here.matchv fmt args).bind fun ⟨res, argsAfter⟩ _ _ there => ?_
  cases res with
  | false => exact .returned (false, argsAfter) (.failed there)
  | true =>
      refine there.matchEol.bind fun ended _ _ last => ?_
      cases ended with
      | true => exact .returned (true, argsAfter) last
      | false => exact .stopped _ _ _

theorem matchLine (fmt : List UInt8) (cells : List Cell) (here : At input unread l) :
    AgreeOn (fun (result : Bool × List Cell) => AfterLine input result.1)
      (Text.matchLine fmt cells unread) (matchLine fmt cells l) :=
  (here.matchLinev fmt ⟨cells, 0⟩).bind fun (res, args) _ _ last =>
    .returned (res, args.cells) last

theorem matchLineOnly (fmt : List UInt8) (here : At input unread l) :
    AgreeOn (AfterLine input) (Text.matchLineOnly fmt unread) (matchLineOnly fmt l) :=
  (here.matchLine fmt []).bind fun (res, _) _ _ last => .returned res last

/-! ## Lines -/

theorem lineLoop (rounds i : Nat) (buf : List UInt8) (here : At input unread l) :
    Agree (AtEol input) (Text.lineLoop rounds i buf unread) (lineLoop rounds i buf l) := by
  induction rounds generalizing unread l i buf with
  | zero => exact .returned _ here.atEol
  | succ rounds ih =>
      refine here.matchEol.bind fun ended _ _ after => ?_
      cases after with
      | matched last => exact .returned _ last
      | failed same =>
          refine same.getc.bind fun c _ _ took => ?_
          exact (took.poke buf i c).bind fun _ _ _ last => ih _ _ last

/-- At the end of a line only further end-of-line bytes are gone. -/
theorem getNonblankLine (buf : List UInt8) (nbytes : Nat) (here : At input unread l) :
    Agree (AtEol input) (Text.getNonblankLine buf nbytes unread)
      (getNonblankLine buf nbytes l) := by
  refine here.matchBlankLine.bind fun blank _ _ after => ?_
  cases after with
  | matched last => exact .returned _ last
  | failed same =>
      refine same.skipBlankSpace.bind fun _ _ _ skipped => ?_
      refine (skipped.lineLoop nbytes 0 buf).bind fun ⟨i, buf⟩ _ _ looped => ?_
      dsimp only
      by_cases full : i = nbytes
      · rw [if_pos full, if_pos full]
        exact .stopped _ _ _
      · rw [if_neg full, if_neg full, Esp.poke, Esp.poke]
        split
        · exact .returned _ looped
        · exact .stopped _ _ _

end At

end Cs140e.Esp
