import Cs140e.Esp.Text

/-!
# One line of text

What the matches of `esp-parse.c` do in front of a line that is not blank.  A
literal format is compared with the line without regard to blanks: it is the
line, or the line goes on after it, or it differs from the line.
-/

namespace Cs140e.Esp

open Cs140e.Library

namespace Text

/-! ## Text without blanks -/

/-- The text without its blanks. -/
def strip (text : List UInt8) : List UInt8 := text.filter fun c => !isSpaceCh c

@[simp]
theorem strip_nil : strip [] = [] := rfl

theorem strip_cons_space {c : UInt8} (text : List UInt8) (space : isSpaceCh c = true) :
    strip (c :: text) = strip text :=
  List.filter_cons_of_neg (by rw [space]; exact Bool.false_ne_true)

theorem strip_cons {c : UInt8} (text : List UInt8) (other : isSpaceCh c = false) :
    strip (c :: text) = c :: strip text :=
  List.filter_cons_of_pos (by rw [other]; rfl)

@[simp]
theorem strip_dropBlanks (text : List UInt8) : strip (dropBlanks text) = strip text := by
  induction text with
  | nil => rfl
  | cons c text ih =>
      cases space : isSpaceCh c with
      | true => rw [dropBlanks_of_space text space, ih, strip_cons_space text space]
      | false => rw [dropBlanks_cons text space]

theorem dropBlanks_eq_nil_iff {text : List UInt8} : dropBlanks text = [] ↔ strip text = [] := by
  constructor
  · intro none
    rw [← strip_dropBlanks, none, strip_nil]
  · intro none
    rw [← strip_dropBlanks] at none
    cases kept : dropBlanks text with
    | nil => rfl
    | cons c rest =>
        rw [kept, strip_cons rest (head_of_dropBlanks kept)] at none
        cases none

/-- Text on one line. -/
def OnLine (text : List UInt8) : Prop := ∀ c ∈ text, isEolCh c = false

instance (text : List UInt8) : Decidable (OnLine text) :=
  inferInstanceAs (Decidable (∀ c ∈ text, _))

theorem OnLine.tail {c : UInt8} {text : List UInt8} (line : OnLine (c :: text)) : OnLine text :=
  fun d mem => line d (List.mem_cons_of_mem c mem)

theorem OnLine.head {c : UInt8} {text : List UInt8} (line : OnLine (c :: text)) :
    isEolCh c = false :=
  line c List.mem_cons_self

theorem OnLine.suffix {text rest : List UInt8} (line : OnLine text) (suffix : rest <:+ text) :
    OnLine rest :=
  fun c mem => line c (suffix.subset mem)

variable {line rest : List UInt8} {e : UInt8}

/-- Blanks are skipped up to the end of the line. -/
theorem dropBlanks_line (eol : isEolCh e = true) :
    dropBlanks (line ++ e :: rest) = dropBlanks line ++ e :: rest := by
  induction line with
  | nil => exact dropBlanks_cons rest (not_space_of_eol eol)
  | cons c line ih =>
      cases space : isSpaceCh c with
      | true => rw [List.cons_append, dropBlanks_of_space _ space, dropBlanks_of_space _ space, ih]
      | false => rw [List.cons_append, dropBlanks_cons _ space, dropBlanks_cons _ space]; rfl

theorem skipBlankSpace_line (eol : isEolCh e = true) :
    skipBlankSpace (line ++ e :: rest) = .ok () (dropBlanks line ++ e :: rest) := by
  rw [skipBlankSpace_eq, dropBlanks_line eol, if_neg]
  exact List.append_ne_nil_of_right_ne_nil _ (List.cons_ne_nil e rest)

theorem matchEol_blank (eol : isEolCh e = true) (blank : strip line = []) :
    matchEol (line ++ e :: rest) = .ok true rest := by
  rw [matchEol, dropBlanks_line eol, dropBlanks_eq_nil_iff.mpr blank]
  simp only [List.nil_append, eol, if_true]

/-- The first byte of the line that is no blank. -/
theorem dropBlanks_nonblank (noEol : OnLine line) (nonblank : strip line ≠ []) :
    ∃ c text, dropBlanks line = c :: text ∧ isSpaceCh c = false ∧ isEolCh c = false := by
  obtain ⟨c, text, kept⟩ :=
    List.exists_cons_of_ne_nil fun none => nonblank (dropBlanks_eq_nil_iff.mp none)
  have suffix : dropBlanks line <:+ line := List.dropWhile_suffix _
  rw [kept] at suffix
  exact ⟨c, text, kept, head_of_dropBlanks kept, (noEol.suffix suffix).head⟩

theorem matchEol_nonblank (eol : isEolCh e = true) (noEol : OnLine line)
    (nonblank : strip line ≠ []) :
    matchEol (line ++ e :: rest) = .ok false (line ++ e :: rest) := by
  obtain ⟨c, text, kept, _, other⟩ := dropBlanks_nonblank noEol nonblank
  rw [matchEol, dropBlanks_line eol, kept]
  simp only [List.cons_append, other, Bool.false_eq_true, if_false]

theorem skipLeading_line (eol : isEolCh e = true) (noEol : OnLine line)
    (nonblank : strip line ≠ []) :
    skipLeading (line ++ e :: rest) = .ok () (dropBlanks line ++ e :: rest) := by
  obtain ⟨c, text, kept, _, other⟩ := dropBlanks_nonblank noEol nonblank
  have same : dropWs (line ++ e :: rest) = dropBlanks line ++ e :: rest := by
    rw [kept]
    exact dropWs_of_not_eol (by rw [dropBlanks_line eol, kept]; rfl) other
  rw [skipLeading_eq, same, if_neg]
  exact List.append_ne_nil_of_right_ne_nil _ (List.cons_ne_nil e rest)

theorem dropBlankLines_blank (eol : isEolCh e = true) (blank : strip line = []) :
    dropBlankLines (line ++ e :: rest) = dropBlankLines rest :=
  dropBlankLines_of_eol (by rw [dropBlanks_line eol, dropBlanks_eq_nil_iff.mpr blank]; rfl) eol

theorem dropBlankLines_nonblank (eol : isEolCh e = true) (noEol : OnLine line)
    (nonblank : strip line ≠ []) : dropBlankLines (line ++ e :: rest) = line ++ e :: rest := by
  obtain ⟨c, text, kept, _, other⟩ := dropBlanks_nonblank noEol nonblank
  exact dropBlankLines_of_not_eol (by rw [dropBlanks_line eol, kept]; rfl) other

/-! ## Literal formats -/

/-- A format without conversions that does not end in a space. -/
structure Literal (fmt : List UInt8) : Prop where
  plain : ∀ f ∈ fmt, isEolCh f = false ∧ f ≠ 37 ∧ f ≠ 9
  last : fmt.getLast? ≠ some 32

theorem Literal.tail {f : UInt8} {fmt : List UInt8} (literal : Literal (f :: fmt)) :
    Literal fmt where
  plain := fun g mem => literal.plain g (List.mem_cons_of_mem f mem)
  last := by
    cases fmt with
    | nil => exact Option.some_ne_none 32 |>.symm
    | cons g fmt =>
        have last := literal.last
        rwa [List.getLast?_cons_cons] at last

/-- What is not a space is no blank. -/
theorem Literal.not_space {f : UInt8} {fmt : List UInt8} (literal : Literal (f :: fmt))
    (printed : f ≠ 32) : isSpaceCh f = false := by
  have plain := literal.plain f List.mem_cons_self
  rw [isSpaceCh, Bool.or_eq_false_iff, beq_eq_false_iff_ne, beq_eq_false_iff_ne]
  exact ⟨printed, plain.2.2⟩

theorem Literal.strip_ne_nil {f : UInt8} {fmt : List UInt8} (literal : Literal (f :: fmt)) :
    strip (f :: fmt) ≠ [] := by
  induction fmt generalizing f with
  | nil =>
      have printed : f ≠ 32 := fun same => literal.last (by rw [same]; rfl)
      rw [strip_cons [] (literal.not_space printed)]
      exact List.cons_ne_nil f _
  | cons g fmt ih =>
      by_cases printed : f = 32
      · subst printed
        rw [strip_cons_space _ rfl]
        exact ih literal.tail
      · rw [strip_cons _ (literal.not_space printed)]
        exact List.cons_ne_nil f _

/-- What the loop of `matchv` does with a literal format in front of a line. -/
inductive LiteralLoop (fmt line : List UInt8) (e : UInt8) (rest : List UInt8) (args : VaList) :
    Outcome (List UInt8) Matchv → Prop where
  | matched (left : List UInt8) (suffix : left <:+ line)
      (same : strip line = strip fmt ++ strip left) :
      LiteralLoop fmt line e rest args (.ok ⟨true, false, args⟩ (left ++ e :: rest))
  | failed {after : List UInt8} (differs : ¬ strip fmt <+: strip line) :
      LiteralLoop fmt line e rest args (.ok ⟨false, false, args⟩ after)

/-- The format and the line may both start with something that was matched. -/
theorem LiteralLoop.after {fmt whole short : List UInt8} (before : List UInt8) {args : VaList}
    {outcome : Outcome (List UInt8) Matchv} (loop : LiteralLoop fmt short e rest args outcome)
    (suffix : short <:+ line) (same : strip line = before ++ strip short)
    (wholeEq : strip whole = before ++ strip fmt) :
    LiteralLoop whole line e rest args outcome := by
  cases loop with
  | matched left suffix' same' =>
      refine .matched left (suffix'.trans suffix) ?_
      rw [same, same', wholeEq, List.append_assoc]
  | failed differs =>
      refine .failed fun prefixed => differs ?_
      rw [same, wholeEq, List.prefix_append_right_inj] at prefixed
      exact prefixed

theorem matchvLoop_literal {fmt : List UInt8} (literal : Literal fmt) (first : Bool)
    (args : VaList) (eol : isEolCh e = true) (noEol : OnLine line) (rest : List UInt8) :
    LiteralLoop fmt line e rest args
      (matchvLoop fmt first false false args (line ++ e :: rest)) := by
  induction fmt generalizing line first with
  | nil => exact .matched line (List.suffix_refl _) rfl
  | cons f fmt ih =>
      obtain ⟨fNotEol, notPercent, notTab⟩ := literal.plain f List.mem_cons_self
      have checked : ∀ text, (Prog.assertThat (!isEolCh f) "!is_eol_ch(*fmt)" :
          Prog (List UInt8) Unit) text = .ok () text := by
        intro text
        rw [fNotEol]
        rfl
      cases line with
      | nil =>
          rw [matchvLoop, Prog.bind_of_ok (checked _), List.nil_append,
            Prog.bind_of_ok (Input.front_cons e rest), if_pos eol]
          refine .failed fun prefixed => ?_
          exact literal.strip_ne_nil (List.prefix_nil.mp prefixed)
      | cons d line =>
          rw [matchvLoop, Prog.bind_of_ok (checked _), List.cons_append,
            Prog.bind_of_ok (Input.front_cons d _),
            if_neg (by rw [noEol.head]; exact Bool.false_ne_true), if_pos notPercent,
            ← List.cons_append]
          by_cases printed : f ≠ 32
          · have notSpace := literal.not_space printed
            rw [if_pos printed, Prog.bind_of_ok (skipBlankSpace_line eol)]
            have stripped := strip_dropBlanks (d :: line)
            cases kept : dropBlanks (d :: line) with
            | nil =>
                have differs : e ≠ f := by
                  rintro rfl
                  rw [eol] at fNotEol
                  cases fNotEol
                rw [List.nil_append, Prog.bind_of_ok (Input.next_cons e rest), if_pos differs]
                refine .failed fun prefixed => ?_
                rw [← stripped, kept, strip_nil] at prefixed
                exact literal.strip_ne_nil (List.prefix_nil.mp prefixed)
            | cons c text =>
                have suffix : dropBlanks (d :: line) <:+ d :: line := List.dropWhile_suffix _
                rw [kept] at suffix
                rw [kept, strip_cons text (head_of_dropBlanks kept)] at stripped
                rw [List.cons_append, Prog.bind_of_ok (Input.next_cons c _)]
                by_cases differs : c ≠ f
                · rw [if_pos differs]
                  refine .failed fun prefixed => ?_
                  rw [← stripped, strip_cons fmt notSpace, List.cons_prefix_cons] at prefixed
                  exact differs prefixed.1.symm
                · rw [not_not] at differs
                  subst differs
                  rw [if_neg (not_not.mpr rfl)]
                  have short := (List.suffix_cons c text).trans suffix
                  exact (ih literal.tail false (noEol.suffix short)).after [c] short
                    stripped.symm (strip_cons fmt notSpace)
          · rw [not_not] at printed
            subst printed
            rw [if_neg (not_not.mpr rfl)]
            exact (ih literal.tail false noEol).after [] (List.suffix_refl _) rfl
              (strip_cons_space fmt rfl)

/-- What `matchv` does with a literal format in front of a line. -/
inductive LiteralMatch (fmt line : List UInt8) (e : UInt8) (rest : List UInt8) (args : VaList) :
    Outcome (List UInt8) (Bool × VaList) → Prop where
  | matched (left : List UInt8) (suffix : left <:+ line)
      (same : strip line = strip fmt ++ strip left) :
      LiteralMatch fmt line e rest args (.ok (true, args) (left ++ e :: rest))
  | failed (differs : ¬ strip fmt <+: strip line) :
      LiteralMatch fmt line e rest args (.ok (false, args) (line ++ e :: rest))

theorem matchv_literal {fmt : List UInt8} (literal : Literal fmt) (args : VaList)
    (eol : isEolCh e = true) (noEol : OnLine line) (nonblank : strip line ≠ [])
    (rest : List UInt8) :
    LiteralMatch fmt line e rest args (matchv fmt args (line ++ e :: rest)) := by
  have suffix : dropBlanks line <:+ line := List.dropWhile_suffix _
  have loop := matchvLoop_literal literal true args eol (noEol.suffix suffix) rest
  generalize looped :
    matchvLoop fmt true false false args (dropBlanks line ++ e :: rest) = outcome at loop
  rw [matchv, Prog.bind_of_ok (Prog.get_apply _),
    Prog.bind_of_ok (skipLeading_line eol noEol nonblank)]
  cases loop with
  | matched left suffix' same =>
      rw [Prog.bind_of_ok looped]
      rw [strip_dropBlanks] at same
      exact .matched left (suffix'.trans suffix) same
  | failed differs =>
      rw [Prog.bind_of_ok looped]
      rw [strip_dropBlanks] at differs
      exact .failed differs

/-! ## Matching a whole line -/

/-- `longer` is `shorter` with something behind it. -/
def ProperPrefix (shorter longer : List UInt8) : Prop := shorter <+: longer ∧ shorter ≠ longer

instance (shorter longer : List UInt8) : Decidable (ProperPrefix shorter longer) :=
  inferInstanceAs (Decidable (_ ∧ _))

/-- What `match_line` does with a literal format in front of a line. -/
inductive MatchesLine (fmt line : List UInt8) (e : UInt8) (rest : List UInt8) :
    Outcome (List UInt8) Bool → Prop where
  | whole (same : strip fmt = strip line) : MatchesLine fmt line e rest (.ok true rest)
  | longer {after : List UInt8} (goesOn : ProperPrefix (strip fmt) (strip line)) :
      MatchesLine fmt line e rest (.error (.panic "did not match end of line\n") after)
  | other (differs : ¬ strip fmt <+: strip line) :
      MatchesLine fmt line e rest (.ok false (line ++ e :: rest))

theorem matchLineOnly_of_linev {fmt text after : List UInt8} {found : Bool} {args : VaList}
    (returned : matchLinev fmt ⟨[], 0⟩ text = .ok (found, args) after) :
    matchLineOnly fmt text = .ok found after := by
  have line : matchLine fmt [] text = .ok (found, args.cells) after := by
    rw [matchLine, Prog.bind_of_ok returned]
    rfl
  rw [matchLineOnly, Prog.bind_of_ok line]
  rfl

theorem matchLineOnly_of_linev_error {fmt text after : List UInt8} {stop : Stop}
    (stopped : matchLinev fmt ⟨[], 0⟩ text = .error stop after) :
    matchLineOnly fmt text = .error stop after := by
  have line : matchLine fmt [] text = .error stop after := by
    rw [matchLine, Prog.bind_of_error stopped]
  rw [matchLineOnly, Prog.bind_of_error line]

theorem matchLineOnly_line {fmt : List UInt8} (literal : Literal fmt) (eol : isEolCh e = true)
    (noEol : OnLine line) (nonblank : strip line ≠ []) :
    MatchesLine fmt line e rest (matchLineOnly fmt (line ++ e :: rest)) := by
  have matching := matchv_literal literal ⟨[], 0⟩ eol noEol nonblank rest
  generalize matched : matchv fmt ⟨[], 0⟩ (line ++ e :: rest) = outcome at matching
  cases matching with
  | matched left suffix same =>
      by_cases blank : strip left = []
      · have linev : matchLinev fmt ⟨[], 0⟩ (line ++ e :: rest) = .ok (true, ⟨[], 0⟩) rest := by
          rw [matchLinev, Prog.bind_of_ok matched]
          change (matchEol >>= _) _ = _
          rw [Prog.bind_of_ok (matchEol_blank eol blank)]
          rfl
        rw [matchLineOnly_of_linev linev]
        rw [blank, List.append_nil] at same
        exact .whole same.symm
      · have linev : matchLinev fmt ⟨[], 0⟩ (line ++ e :: rest) =
            .error (.panic "did not match end of line\n") (left ++ e :: rest) := by
          rw [matchLinev, Prog.bind_of_ok matched]
          change (matchEol >>= _) _ = _
          rw [Prog.bind_of_ok (matchEol_nonblank eol (noEol.suffix suffix) blank)]
          rfl
        rw [matchLineOnly_of_linev_error linev]
        refine .longer ⟨⟨strip left, same.symm⟩, fun equal => blank ?_⟩
        rw [same] at equal
        exact List.self_eq_append_right.mp equal
  | failed differs =>
      have linev : matchLinev fmt ⟨[], 0⟩ (line ++ e :: rest) =
          .ok (false, ⟨[], 0⟩) (line ++ e :: rest) := by
        rw [matchLinev, Prog.bind_of_ok matched]
        rfl
      rw [matchLineOnly_of_linev linev]
      exact .other differs

/-! ## Matching a token -/

/-- Behind its leading blanks the line starts with the token, and no letter follows. -/
def startsWithTok (tok line : List UInt8) : Bool :=
  tok.isPrefixOf (dropBlanks line) && !((dropBlanks line).drop tok.length).head?.any isalpha

theorem tokLoop_line {tok : List UInt8} (onLine : OnLine tok) (eol : isEolCh e = true)
    (text rest : List UInt8) :
    (tok <+: text ∧ tokLoop tok (text ++ e :: rest) =
        .ok true (text.drop tok.length ++ e :: rest)) ∨
      (¬ tok <+: text ∧ ∃ after, tokLoop tok (text ++ e :: rest) = .ok false after) := by
  induction tok generalizing text with
  | nil => exact .inl ⟨List.nil_prefix, rfl⟩
  | cons p tok ih =>
      cases text with
      | nil =>
          have differs : p ≠ e := by
            rintro rfl
            have := onLine.head
            rw [eol] at this
            cases this
          refine .inr ⟨fun prefixed => List.cons_ne_nil p tok (List.prefix_nil.mp prefixed),
            rest, ?_⟩
          rw [tokLoop, List.nil_append, Prog.bind_of_ok (Input.next_cons e rest), if_pos differs]
          rfl
      | cons c text =>
          rw [tokLoop, List.cons_append, Prog.bind_of_ok (Input.next_cons c _),
            List.cons_prefix_cons]
          by_cases differs : p ≠ c
          · rw [if_pos differs]
            exact .inr ⟨fun both => differs both.1, _, rfl⟩
          · rw [not_not] at differs
            subst differs
            rw [if_neg (not_not.mpr rfl)]
            rcases ih onLine.tail text with ⟨prefixed, ran⟩ | ⟨other, after, ran⟩
            · exact .inl ⟨⟨rfl, prefixed⟩, ran⟩
            · exact .inr ⟨fun both => other both.2, after, ran⟩

theorem not_isalpha_of_eol {c : UInt8} (eol : isEolCh c = true) : isalpha c = false := by
  rw [isEolCh, Bool.or_eq_true, beq_iff_eq, beq_iff_eq] at eol
  rcases eol with rfl | rfl <;> decide

theorem tokGoesOn_line {tok left : List UInt8} (letter : isalpha (tok.getLastD 0) = true)
    (eol : isEolCh e = true) :
    tokGoesOn tok (left ++ e :: rest) = .ok (left.head?.any isalpha) (left ++ e :: rest) := by
  rw [tokGoesOn, if_pos letter]
  cases left with
  | nil =>
      rw [List.nil_append, Prog.bind_of_ok (Input.front_cons e rest), not_isalpha_of_eol eol]
      rfl
  | cons c left =>
      rw [List.cons_append, Prog.bind_of_ok (Input.front_cons c _)]
      rfl

/-- What `match_tok` does with a token that ends in a letter in front of a line. -/
inductive MatchesTok (tok line : List UInt8) (e : UInt8) (rest : List UInt8) :
    Outcome (List UInt8) Bool → Prop where
  | found (starts : startsWithTok tok line = true) :
      MatchesTok tok line e rest (.ok true ((dropBlanks line).drop tok.length ++ e :: rest))
  | other (differs : startsWithTok tok line = false) :
      MatchesTok tok line e rest (.ok false (line ++ e :: rest))

theorem matchTok_line (tok : List UInt8) (onLine : OnLine tok)
    (letter : isalpha (tok.getLastD 0) = true) (eol : isEolCh e = true) (noEol : OnLine line)
    (nonblank : strip line ≠ []) (rest : List UInt8) :
    MatchesTok tok line e rest (matchTok tok (line ++ e :: rest)) := by
  have nonempty : tok.isEmpty = false := by
    cases tok with
    | nil => cases letter
    | cons p tok => rfl
  have checked : (Prog.assertThat (!tok.isEmpty) "*p" : Prog (List UInt8) Unit)
      (dropBlanks line ++ e :: rest) = .ok () (dropBlanks line ++ e :: rest) := by
    rw [nonempty]
    rfl
  rw [matchTok, Prog.bind_of_ok (Prog.get_apply _),
    Prog.bind_of_ok (skipLeading_line eol noEol nonblank), Prog.bind_of_ok checked]
  rcases tokLoop_line onLine eol (dropBlanks line) rest with
    ⟨prefixed, ran⟩ | ⟨other, after, ran⟩
  · rw [Prog.bind_of_ok ran, if_pos rfl, Prog.bind_of_ok (tokGoesOn_line letter eol)]
    have starts : startsWithTok tok line =
        !((dropBlanks line).drop tok.length).head?.any isalpha := by
      rw [startsWithTok, List.isPrefixOf_iff_prefix.mpr prefixed, Bool.true_and]
    cases goesOn : ((dropBlanks line).drop tok.length).head?.any isalpha with
    | true => exact .other (by rw [starts, goesOn]; rfl)
    | false => exact .found (by rw [starts, goesOn]; rfl)
  · rw [Prog.bind_of_ok ran]
    refine .other ?_
    rw [startsWithTok, Bool.and_eq_false_iff, ← Bool.not_eq_true, List.isPrefixOf_iff_prefix]
    exact .inl other

/-! ## Taking a line -/

/-- The line without the blanks at its end. -/
def trimEnd (line : List UInt8) : List UInt8 := (dropBlanks line.reverse).reverse

/-- The line without the blanks at its two ends. -/
def trim (line : List UInt8) : List UInt8 := trimEnd (dropBlanks line)

theorem trim_length_le (line : List UInt8) : (trim line).length ≤ line.length := by
  have behind : dropBlanks (dropBlanks line).reverse <:+ _ := List.dropWhile_suffix _
  have front : dropBlanks line <:+ line := List.dropWhile_suffix _
  have := behind.length_le
  have := front.length_le
  rw [trim, trimEnd, List.length_reverse]
  rw [List.length_reverse] at *
  omega

theorem strip_reverse (text : List UInt8) : strip text.reverse = (strip text).reverse :=
  List.filter_reverse

theorem trimEnd_blank (blank : strip line = []) : trimEnd line = [] := by
  rw [trimEnd, List.reverse_eq_nil_iff, dropBlanks_eq_nil_iff, strip_reverse, blank]
  rfl

/-- A byte with something behind it, or that is no blank itself, stays. -/
theorem trimEnd_cons {c : UInt8} (nonblank : strip (c :: line) ≠ []) :
    trimEnd (c :: line) = c :: trimEnd line := by
  have parts : dropBlanks (c :: line).reverse = dropBlanks line.reverse ++ [c] := by
    rw [List.reverse_cons, dropBlanks, List.dropWhile_append]
    by_cases blank : strip line = []
    · have none : line.reverse.dropWhile isSpaceCh = [] :=
        dropBlanks_eq_nil_iff.mpr (by rw [strip_reverse, blank]; rfl)
      have other : isSpaceCh c = false := by
        cases space : isSpaceCh c with
        | false => rfl
        | true => exact absurd ((strip_cons_space line space).trans blank) nonblank
      rw [none, dropBlanks, none]
      exact dropBlanks_cons [] other
    · have some : line.reverse.dropWhile isSpaceCh ≠ [] := fun none => blank (by
        have stripped := dropBlanks_eq_nil_iff.mp none
        rwa [strip_reverse, List.reverse_eq_nil_iff] at stripped)
      rw [if_neg (by rw [List.isEmpty_iff]; exact some)]
      rfl
  rw [trimEnd, parts, List.reverse_append]
  rfl

/-- The line loop stores the line without the blanks at its end. -/
theorem lineLoop_line (rounds : Nat) (done old rest : List UInt8) (eol : isEolCh e = true)
    (noEol : OnLine line) (short : (trimEnd line).length < rounds)
    (fits : (trimEnd line).length ≤ old.length) :
    lineLoop rounds done.length (done ++ old) (line ++ e :: rest) =
      .ok ((done ++ trimEnd line).length,
        done ++ trimEnd line ++ old.drop (trimEnd line).length) rest := by
  induction rounds generalizing done old line with
  | zero => exact absurd short (Nat.not_lt_zero _)
  | succ rounds ih =>
      by_cases blank : strip line = []
      · rw [lineLoop, Prog.bind_of_ok (matchEol_blank eol blank), trimEnd_blank blank,
          List.append_nil]
        rfl
      · cases line with
        | nil => exact absurd rfl blank
        | cons c line =>
            rw [trimEnd_cons blank, List.length_cons] at short fits
            obtain ⟨o, old, rfl⟩ := List.exists_cons_of_length_pos (Nat.lt_of_lt_of_le
              (Nat.succ_pos _) fits)
            have poked := poke_done done old o c (line ++ e :: rest)
            rw [lineLoop, Prog.bind_of_ok (matchEol_nonblank eol noEol blank),
              if_neg Bool.false_ne_true, List.cons_append, Prog.bind_of_ok (Input.next_cons c _),
              Prog.bind_of_ok poked]
            have looped := ih (done ++ [c]) old noEol.tail (Nat.lt_of_succ_lt_succ short)
              (Nat.le_of_succ_le_succ fits)
            rw [trimEnd_cons blank, List.append_cons done c (trimEnd line)]
            rw [List.length_append] at looped
            exact looped

/-- With too few rounds the line loop fills what it may fill of the buffer. -/
theorem lineLoop_full (rounds : Nat) (done old rest : List UInt8) (eol : isEolCh e = true)
    (noEol : OnLine line) (long : rounds ≤ (trimEnd line).length) (fits : rounds ≤ old.length) :
    ∃ buf after, lineLoop rounds done.length (done ++ old) (line ++ e :: rest) =
      .ok (done.length + rounds, buf) after := by
  induction rounds generalizing done old line with
  | zero => exact ⟨_, _, rfl⟩
  | succ rounds ih =>
      have nonblank : strip line ≠ [] := fun blank => by
        rw [trimEnd_blank blank] at long
        exact absurd long (Nat.not_succ_le_zero rounds)
      cases line with
      | nil => exact absurd rfl nonblank
      | cons c line =>
          rw [trimEnd_cons nonblank, List.length_cons] at long
          obtain ⟨o, old, rfl⟩ := List.exists_cons_of_length_pos (Nat.lt_of_lt_of_le
            (Nat.succ_pos _) fits)
          have poked := poke_done done old o c (line ++ e :: rest)
          rw [lineLoop, Prog.bind_of_ok (matchEol_nonblank eol noEol nonblank),
            if_neg Bool.false_ne_true, List.cons_append, Prog.bind_of_ok (Input.next_cons c _),
            Prog.bind_of_ok poked]
          obtain ⟨buf, after, looped⟩ := ih (done ++ [c]) old noEol.tail
            (Nat.le_of_succ_le_succ long) (Nat.le_of_succ_le_succ fits)
          rw [List.length_append, List.length_singleton, Nat.add_right_comm] at looped
          exact ⟨buf, after, looped⟩

theorem getNonblankLine_blank (buf : List UInt8) (nbytes : Nat) (eol : isEolCh e = true)
    (blank : strip line = []) :
    getNonblankLine buf nbytes (line ++ e :: rest) = .ok (0, buf) rest := by
  rw [getNonblankLine, Prog.bind_of_ok (matchEol_blank eol blank)]
  rfl

theorem getNonblankLine_line {buf : List UInt8} {nbytes : Nat} (eol : isEolCh e = true)
    (noEol : OnLine line) (nonblank : strip line ≠ []) (short : (trim line).length < nbytes)
    (fits : (trim line).length < buf.length) :
    getNonblankLine buf nbytes (line ++ e :: rest) =
      .ok ((trim line).length, trim line ++ 0 :: buf.drop ((trim line).length + 1)) rest := by
  have suffix : dropBlanks line <:+ line := List.dropWhile_suffix _
  have looped : lineLoop nbytes 0 buf (dropBlanks line ++ e :: rest) =
      .ok ((trim line).length, trim line ++ buf.drop (trim line).length) rest :=
    lineLoop_line nbytes [] buf rest eol (noEol.suffix suffix) short (Nat.le_of_lt fits)
  have behind : buf.drop (trim line).length =
      buf[(trim line).length] :: buf.drop ((trim line).length + 1) := List.drop_eq_getElem_cons fits
  have poked := poke_done (trim line) (buf.drop ((trim line).length + 1))
    buf[(trim line).length] 0 rest
  rw [getNonblankLine, Prog.bind_of_ok (matchEol_nonblank eol noEol nonblank),
    if_neg Bool.false_ne_true, Prog.bind_of_ok (skipBlankSpace_line eol), Prog.bind_of_ok looped]
  dsimp only
  rw [behind, if_neg (Nat.ne_of_lt short), Prog.bind_of_ok poked, List.append_assoc]
  rfl

theorem getNonblankLine_full {buf : List UInt8} {nbytes : Nat} (eol : isEolCh e = true)
    (noEol : OnLine line) (nonblank : strip line ≠ []) (long : nbytes ≤ (trim line).length)
    (fits : nbytes ≤ buf.length) :
    ∃ after, getNonblankLine buf nbytes (line ++ e :: rest) =
      .error (.panic "buffer too small nybtes=%d\n") after := by
  have suffix : dropBlanks line <:+ line := List.dropWhile_suffix _
  have filled : ∃ full after, lineLoop nbytes 0 buf (dropBlanks line ++ e :: rest) =
      .ok (0 + nbytes, full) after :=
    lineLoop_full nbytes [] buf rest eol (noEol.suffix suffix) long fits
  obtain ⟨full, after, looped⟩ := filled
  refine ⟨after, ?_⟩
  rw [getNonblankLine, Prog.bind_of_ok (matchEol_nonblank eol noEol nonblank),
    if_neg Bool.false_ne_true, Prog.bind_of_ok (skipBlankSpace_line eol), Prog.bind_of_ok looped]
  dsimp only
  rw [if_pos (Nat.zero_add nbytes)]
  rfl

end Text

/-! ## Streams of lines -/

open Text

/-- A line that fits in the buffers of the program, with one or more CR and LF behind it. -/
structure Line where
  text : List UInt8
  ending : List UInt8
  onLine : OnLine text
  ended : ending ≠ []
  endings : ∀ c ∈ ending, isEolCh c = true
  short : text.length < 1024

theorem crlf_ended : ([13, 10] : List UInt8) ≠ [] := List.cons_ne_nil _ _

theorem crlf_endings : ∀ c ∈ ([13, 10] : List UInt8), isEolCh c = true := by decide

namespace Line

def bytes (line : Line) : List UInt8 := line.text ++ line.ending

/-- What a match that ends at the end of the line leaves of it. -/
def left (line : Line) : List UInt8 := line.ending.tail

def Blank (line : Line) : Prop := strip line.text = []

instance (line : Line) : Decidable line.Blank := inferInstanceAs (Decidable (_ = _))

theorem ending_eq (line : Line) : ∃ e, isEolCh e = true ∧ line.ending = e :: line.left := by
  obtain ⟨e, more, ending⟩ := List.exists_cons_of_ne_nil line.ended
  refine ⟨e, line.endings e (by rw [ending]; exact List.mem_cons_self), ?_⟩
  rw [left, ending]
  rfl

theorem bytes_append (line : Line) (rest : List UInt8) :
    ∃ e, isEolCh e = true ∧ line.bytes ++ rest = line.text ++ e :: (line.left ++ rest) := by
  obtain ⟨e, eol, ending⟩ := line.ending_eq
  refine ⟨e, eol, ?_⟩
  rw [bytes, ending, List.append_assoc]
  rfl

theorem left_shorter (line : Line) (rest : List UInt8) :
    (line.left ++ rest).length < (line.bytes ++ rest).length := by
  obtain ⟨e, eol, split⟩ := line.bytes_append rest
  have parts : (line.bytes ++ rest).length =
      line.text.length + ((line.left ++ rest).length + 1) := by
    rw [split, List.length_append, List.length_cons]
  omega

theorem left_eol (line : Line) : ∀ c ∈ line.left, isEolCh c = true :=
  fun c mem => line.endings c (List.mem_of_mem_tail mem)

theorem dropBlankLines_left (line : Line) (rest : List UInt8) :
    dropBlankLines (line.left ++ rest) = dropBlankLines rest :=
  dropBlankLines_eols line.left_eol rest

theorem dropBlankLines_of_blank {line : Line} (blank : line.Blank) (rest : List UInt8) :
    dropBlankLines (line.bytes ++ rest) = dropBlankLines rest := by
  obtain ⟨e, eol, split⟩ := line.bytes_append rest
  rw [split, dropBlankLines_blank eol blank, line.dropBlankLines_left]

theorem dropBlankLines_of_not_blank {line : Line} (nonblank : ¬ line.Blank) (rest : List UInt8) :
    dropBlankLines (line.bytes ++ rest) = line.bytes ++ rest := by
  obtain ⟨e, eol, split⟩ := line.bytes_append rest
  rw [split, dropBlankLines_nonblank eol line.onLine nonblank]

end Line

/-- The bytes of the lines, one after the other. -/
def streamOf (lines : List Line) : List UInt8 := lines.flatMap Line.bytes

@[simp]
theorem streamOf_nil : streamOf [] = [] := rfl

@[simp]
theorem streamOf_cons (line : Line) (lines : List Line) :
    streamOf (line :: lines) = line.bytes ++ streamOf lines := rfl

end Cs140e.Esp
