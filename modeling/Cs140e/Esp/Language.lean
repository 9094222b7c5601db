import Cs140e.Library.Pattern
import Cs140e.Esp.Consumed
import Cs140e.Esp.VaArgs

/-!
# The language of `matchv`

A format is a pattern of characters, spaces and numerals, and `matchv` accepts
what begins with it.  Before each item it looks for the end of the line, and
only then, at a `%`, does it decide that the rest must match.
-/

namespace Cs140e.Esp

open Cs140e.Library
open Cs140e.Library.Pattern

/-- Blanks, digits and numbers as the parser takes them. -/
def parsed : Alphabet UInt8 UInt32 := ⟨isSpaceCh, isdigit, fun n => UInt32.ofNat (Decimal.value n)⟩

/-! ## Formats as patterns -/

/-- An item as it is written in a format. -/
def itemBytes : Item UInt8 → List UInt8
  | .char c => [c]
  | .space => [32]
  | .number => [37, 117]

def formatOf (items : List (Item UInt8)) : List UInt8 := items.flatMap itemBytes

/-- A character of a format is no blank, no line end and no `%`. -/
def PlainItem (item : Item UInt8) : Prop :=
  ∀ c, item = .char c → isSpaceCh c = false ∧ isEolCh c = false ∧ c ≠ 37

/-- The last item is no space. -/
structure PlainFormat (items : List (Item UInt8)) : Prop where
  plain : ∀ item ∈ items, PlainItem item
  closed : items.getLast? ≠ some .space

theorem PlainFormat.tail {item : Item UInt8} {items : List (Item UInt8)}
    (plain : PlainFormat (item :: items)) : PlainFormat items where
  plain := fun item mem => plain.plain item (List.mem_cons_of_mem _ mem)
  closed := by
    intro last
    cases items with
    | nil => cases last
    | cons next items =>
        apply plain.closed
        rw [List.getLast?_cons_cons, last]

/-- Something comes behind every space. -/
theorem PlainFormat.not_spaces {items : List (Item UInt8)} (plain : PlainFormat items)
    (spaces : ∀ item ∈ items, item = .space) : items = [] := by
  cases last : items.getLast? with
  | none => exact List.getLast?_eq_none_iff.mp last
  | some item =>
      rw [spaces item (List.mem_of_getLast? last)] at last
      exact absurd last plain.closed

/-- No item but a space matches at the end of a line. -/
theorem PlainFormat.stuck {items : List (Item UInt8)} (plain : PlainFormat items) {e : UInt8}
    (eol : isEolCh e = true) (rest : List UInt8) : Stuck parsed items (e :: rest) := by
  rintro d tail ⟨⟩
  refine ⟨Text.not_space_of_eol eol, ?_, fun mem => ?_⟩
  · cases digit : isdigit e with
    | false => exact digit
    | true =>
        rw [Text.not_eol_of_digit digit] at eol
        cases eol
  · rw [(plain.plain _ mem e rfl).2.1] at eol
    cases eol

/-- There is an argument for each numeral, and it points to a number. -/
structure Ready (args : VaList) (items : List (Item UInt8)) : Prop where
  uints : args.Uints
  room : args.next + items.count .number ≤ args.cells.length

theorem Ready.fetch {args : VaList} {items : List (Item UInt8)}
    (ready : Ready args (.number :: items)) :
    args.next < args.cells.length ∧ ∃ old, args.cells[args.next]? = some (.uint old) := by
  have room := ready.room
  rw [List.count_cons_self] at room
  have inside : args.next < args.cells.length := by omega
  obtain ⟨old, isUint⟩ := ready.uints _ (List.getElem_mem inside)
  exact ⟨inside, old, by rw [List.getElem?_eq_getElem inside, isUint]⟩

theorem Ready.stored {args : VaList} {items : List (Item UInt8)}
    (ready : Ready args (.number :: items)) (value : UInt32) :
    Ready ⟨args.cells.set args.next (.uint value), args.next + 1⟩ items where
  uints := ready.uints.set _ _
  room := by
    have room := ready.room
    rw [List.count_cons_self] at room
    rw [List.length_set]
    change args.next + 1 + items.count .number ≤ args.cells.length
    omega

/-- Other items need no argument. -/
theorem Ready.tail {args : VaList} {item : Item UInt8} {items : List (Item UInt8)}
    (ready : Ready args (item :: items)) (other : item ≠ .number) : Ready args items where
  uints := ready.uints
  room := by
    have room := ready.room
    rwa [List.count_cons_of_ne other] at room

theorem Stores.append {first second third : VaList} {values more : List UInt32}
    (left : Stores first values second) (right : Stores second more third) :
    Stores first (values ++ more) third := by
  induction left with
  | nil => exact right
  | cons room rest ih => exact .cons room (ih right)

/-! ## One item of a format -/

namespace Text

/-- Whether the item makes the rest a must. -/
def commits (first : Bool) : Item UInt8 → Bool
  | .number => !first
  | .char _ => false
  | .space => false

theorem itemBytes_cons {item : Item UInt8} (plain : PlainItem item) :
    ∃ f more, itemBytes item = f :: more ∧ isEolCh f = false := by
  cases item with
  | char c => exact ⟨c, [], rfl, (plain c rfl).2.1⟩
  | space => exact ⟨32, [], rfl, rfl⟩
  | number => exact ⟨37, [117], rfl, rfl⟩

/-- The first byte of an item is looked at only behind the test for the end of
the line. -/
theorem matchvLoop_eol {item : Item UInt8} (plain : PlainItem item) (fmt : List UInt8)
    (first mustMatch : Bool) (args : VaList) {e : UInt8} (eol : isEolCh e = true)
    (rest : List UInt8) :
    matchvLoop (itemBytes item ++ fmt) first false mustMatch args (e :: rest) =
      .ok ⟨false, mustMatch, args⟩ (e :: rest) := by
  obtain ⟨f, more, bytes, notEol⟩ := itemBytes_cons plain
  have checked : (Prog.assertThat (!isEolCh f) "!is_eol_ch(*fmt)" : Prog (List UInt8) Unit)
      (e :: rest) = .ok () (e :: rest) := by
    rw [notEol]
    rfl
  rw [bytes, List.cons_append, matchvLoop, Prog.bind_of_ok checked,
    Prog.bind_of_ok (Input.front_cons e rest), if_pos eol]
  rfl

/-- At the end of the text every item waits. -/
theorem matchvLoop_nil {item : Item UInt8} (plain : PlainItem item) (fmt : List UInt8)
    (first mustMatch : Bool) (args : VaList) :
    matchvLoop (itemBytes item ++ fmt) first false mustMatch args [] = .error .blocked [] := by
  obtain ⟨f, more, bytes, notEol⟩ := itemBytes_cons plain
  have checked : (Prog.assertThat (!isEolCh f) "!is_eol_ch(*fmt)" : Prog (List UInt8) Unit)
      [] = .ok () [] := by
    rw [notEol]
    rfl
  rw [bytes, List.cons_append, matchvLoop, Prog.bind_of_ok checked,
    Prog.bind_of_error Input.front_nil]

theorem matchvLoop_space {d : UInt8} (notEol : isEolCh d = false) (fmt : List UInt8)
    (first mustMatch : Bool) (args : VaList) (rest : List UInt8) :
    matchvLoop (32 :: fmt) first false mustMatch args (d :: rest) =
      matchvLoop fmt false false mustMatch args (d :: rest) := by
  have checked : (Prog.assertThat (!isEolCh 32) "!is_eol_ch(*fmt)" : Prog (List UInt8) Unit)
      (d :: rest) = .ok () (d :: rest) := rfl
  rw [matchvLoop, Prog.bind_of_ok checked, Prog.bind_of_ok (Input.front_cons d rest),
    if_neg (by rw [notEol]; exact Bool.false_ne_true), if_pos (by decide),
    if_neg (not_not_intro rfl)]

/-- In front of a character blanks are skipped. -/
theorem matchvLoop_blanks {f d : UInt8} (plain : isSpaceCh f = false ∧ isEolCh f = false ∧ f ≠ 37)
    (notEol : isEolCh d = false) (fmt : List UInt8) (first mustMatch : Bool) (args : VaList)
    (rest : List UInt8) :
    matchvLoop (f :: fmt) first false mustMatch args (d :: rest) =
      (do
        skipBlankSpace
        if (← Input.next) ≠ f then pure ⟨false, mustMatch, args⟩
        else matchvLoop fmt false false mustMatch args : Prog (List UInt8) Matchv) (d :: rest) := by
  obtain ⟨notSpace, fmtNotEol, notPercent⟩ := plain
  have checked : (Prog.assertThat (!isEolCh f) "!is_eol_ch(*fmt)" : Prog (List UInt8) Unit)
      (d :: rest) = .ok () (d :: rest) := by
    rw [fmtNotEol]
    rfl
  have printed : f ≠ 32 := by
    rintro rfl
    cases notSpace
  rw [matchvLoop, Prog.bind_of_ok checked, Prog.bind_of_ok (Input.front_cons d rest),
    if_neg (by rw [notEol]; exact Bool.false_ne_true), if_pos notPercent, if_pos printed]

theorem skipBlankSpace_blanks {blanks : List UInt8} {d : UInt8}
    (all : ∀ b ∈ blanks, isSpaceCh b = true) (other : isSpaceCh d = false) (rest : List UInt8) :
    skipBlankSpace (blanks ++ d :: rest) = .ok () (d :: rest) := by
  have dropped : dropBlanks (blanks ++ d :: rest) = d :: rest := by
    rw [dropBlanks, Input.dropWhile_append_of_all all]
    exact dropBlanks_cons rest other
  rw [skipBlankSpace_eq, dropped, if_neg (List.cons_ne_nil d rest)]

theorem skipBlankSpace_all {blanks : List UInt8} (all : ∀ b ∈ blanks, isSpaceCh b = true) :
    skipBlankSpace blanks = .error .blocked [] := by
  have dropped : dropBlanks blanks = [] := List.dropWhile_eq_nil_iff.mpr all
  rw [skipBlankSpace_eq, dropped, if_pos rfl]

/-- The digits behind the blanks, up to something that is neither. -/
theorem matchUint_blanks {blanks numeral : List UInt8} {d : UInt8}
    (all : ∀ b ∈ blanks, isSpaceCh b = true) (digits : ∀ c ∈ numeral, isdigit c = true)
    (other : numeral = [] → isSpaceCh d = false) (stop : isdigit d = false)
    (rest : List UInt8) :
    matchUint (blanks ++ (numeral ++ d :: rest)) =
      .ok (decide (numeral.length ≠ 0), UInt32.ofNat (Decimal.value numeral)) (d :: rest) := by
  have skipped : skipBlankSpace (blanks ++ (numeral ++ d :: rest)) =
      .ok () (numeral ++ d :: rest) := by
    cases numeral with
    | nil => exact skipBlankSpace_blanks all (other rfl) rest
    | cons c numeral =>
        exact skipBlankSpace_blanks all (not_space_of_digit (digits c List.mem_cons_self)) _
  rw [matchUint, Prog.bind_of_ok skipped, Prog.bind_of_ok (uintLoop_numeral digits stop rest)]
  rfl

theorem matchUint_waits {blanks numeral : List UInt8} (all : ∀ b ∈ blanks, isSpaceCh b = true)
    (digits : ∀ c ∈ numeral, isdigit c = true) :
    matchUint (blanks ++ numeral) = .error .blocked [] := by
  cases numeral with
  | nil => rw [List.append_nil, matchUint, Prog.bind_of_error (skipBlankSpace_all all)]
  | cons c numeral =>
      have notSpace := not_space_of_digit (digits c List.mem_cons_self)
      have looped := uintLoop_eq 0 0 (c :: numeral)
      rw [List.dropWhile_eq_nil_iff.mpr digits] at looped
      rw [matchUint, Prog.bind_of_ok (skipBlankSpace_blanks all notSpace numeral)]
      exact Prog.bind_of_error looped

/-- An item that matches hands the rest on. -/
theorem matchvLoop_takes {item : Item UInt8} {items : List (Item UInt8)}
    {text middle : List UInt8} {values : List UInt32} {args : VaList} (plain : PlainItem item)
    (takes : Matches parsed item text values middle) {d : UInt8} {tail : List UInt8}
    (front : text = d :: tail) (notEol : isEolCh d = false) (ready : Ready args (item :: items))
    (first mustMatch : Bool) :
    ∃ after, matchvLoop (formatOf (item :: items)) first false mustMatch args text =
        matchvLoop (formatOf items) false false (mustMatch || commits first item) after middle ∧
      Stores args values after ∧ Ready after items := by
  cases takes with
  | space =>
      subst front
      refine ⟨args, ?_, .nil args, ready.tail (by decide)⟩
      rw [commits, Bool.or_false]
      exact matchvLoop_space notEol (formatOf items) first mustMatch args tail
  | @char c blanks all _ =>
      obtain ⟨notSpace, _, _⟩ := plain c rfl
      refine ⟨args, ?_, .nil args, ready.tail (fun same => by cases same)⟩
      rw [commits, Bool.or_false, front]
      refine (matchvLoop_blanks (plain c rfl) notEol (formatOf items) first mustMatch args
        tail).trans ?_
      rw [← front, Prog.bind_of_ok (skipBlankSpace_blanks all notSpace middle),
        Prog.bind_of_ok (Input.next_cons c middle), if_neg (not_not_intro rfl)]
  | @number blanks numeral e all digits nonempty stop rest =>
      obtain ⟨inside, old, cell⟩ := ready.fetch
      have some : numeral.length ≠ 0 := fun zero => nonempty (List.eq_nil_of_length_eq_zero zero)
      have read := matchUint_blanks all digits (fun none => absurd none nonempty) stop rest
      rw [decide_eq_true some] at read
      refine ⟨_, ?_, .cons inside (.nil _), ready.stored _⟩
      rw [front] at read ⊢
      refine (matchvLoop_conversion notEol (formatOf items) first mustMatch cell tail).trans ?_
      exact Prog.bind_of_ok read

/-- An item that does not match ends the loop. -/
theorem matchvLoop_fails {item : Item UInt8} {items : List (Item UInt8)} {text : List UInt8}
    {args : VaList} (plain : PlainItem item) (fails : Fails parsed item text) {d : UInt8}
    {tail : List UInt8} (front : text = d :: tail) (notEol : isEolCh d = false)
    (ready : Ready args (item :: items)) (first mustMatch : Bool) :
    ∃ after rest, matchvLoop (formatOf (item :: items)) first false mustMatch args text =
      .ok ⟨false, mustMatch || commits first item, after⟩ rest := by
  cases fails with
  | @char c g blanks all other differs rest =>
      refine ⟨args, rest, ?_⟩
      rw [commits, Bool.or_false, front]
      refine (matchvLoop_blanks (plain c rfl) notEol (formatOf items) first mustMatch args
        tail).trans ?_
      rw [← front, Prog.bind_of_ok (skipBlankSpace_blanks all other rest),
        Prog.bind_of_ok (Input.next_cons g rest), if_pos differs]
      rfl
  | @number g blanks all other stop rest =>
      obtain ⟨_, old, cell⟩ := ready.fetch
      have digits : ∀ c ∈ ([] : List UInt8), isdigit c = true :=
        fun _ none => absurd none List.not_mem_nil
      have read := matchUint_blanks all digits (fun _ => other) stop rest
      rw [List.nil_append, front] at read
      refine ⟨⟨args.cells.set args.next (.uint (UInt32.ofNat (Decimal.value []))), args.next + 1⟩,
        g :: rest, ?_⟩
      rw [front]
      refine (matchvLoop_conversion notEol (formatOf items) first mustMatch cell tail).trans ?_
      exact Prog.bind_of_ok read

/-- An item at which the text ends waits. -/
theorem matchvLoop_waits {item : Item UInt8} {items : List (Item UInt8)} {text : List UInt8}
    {args : VaList} (plain : PlainItem item) (waits : Waits parsed item text) {d : UInt8}
    {tail : List UInt8} (front : text = d :: tail) (notEol : isEolCh d = false)
    (ready : Ready args (item :: items)) (first mustMatch : Bool) :
    matchvLoop (formatOf (item :: items)) first false mustMatch args text =
      .error .blocked [] := by
  cases waits with
  | char c all =>
      have skipped := skipBlankSpace_all all
      rw [front] at skipped ⊢
      refine (matchvLoop_blanks (plain c rfl) notEol (formatOf items) first mustMatch args
        tail).trans ?_
      exact Prog.bind_of_error skipped
  | number all digits =>
      obtain ⟨_, old, cell⟩ := ready.fetch
      have read := matchUint_waits all digits
      rw [front] at read ⊢
      refine (matchvLoop_conversion notEol (formatOf items) first mustMatch cell tail).trans ?_
      exact Prog.bind_of_error read

end Text

/-! ## The loop on a whole format -/

/-- Some numeral behind the start of the format was passed when item `k` failed:
the text matched up to it and did not end a line there. -/
def Passed (items : List (Item UInt8)) (first : Bool) (k : Nat) (left : List UInt8) : Prop :=
  ∃ j, j ≤ k ∧ items[j]? = some .number ∧ (first = true → j ≠ 0) ∧
    (j = k → ∀ e tail, left = e :: tail → isEolCh e = false)

theorem commits_iff {first : Bool} {item : Item UInt8} :
    Text.commits first item = true ↔ item = .number ∧ first = false := by
  cases item <;> cases first <;> simp [Text.commits]

theorem passed_zero {item : Item UInt8} (items : List (Item UInt8)) {first : Bool} {d : UInt8}
    {tail : List UInt8} (notEol : isEolCh d = false) :
    Passed (item :: items) first 0 (d :: tail) ↔ Text.commits first item = true := by
  rw [commits_iff]
  constructor
  · rintro ⟨j, below, number, start, _⟩
    cases Nat.le_zero.mp below
    cases first with
    | true => exact absurd rfl (start rfl)
    | false => exact ⟨Option.some.inj number, rfl⟩
  · rintro ⟨rfl, rfl⟩
    refine ⟨0, Nat.le_refl 0, rfl, nofun, fun _ e rest same => ?_⟩
    cases same
    exact notEol

theorem passed_succ {item : Item UInt8} {items : List (Item UInt8)} {first : Bool} {k : Nat}
    {left : List UInt8} : Passed (item :: items) first (k + 1) left ↔
      Text.commits first item = true ∨ Passed items false k left := by
  rw [commits_iff]
  constructor
  · rintro ⟨j, below, number, start, last⟩
    cases j with
    | zero =>
        cases first with
        | true => exact absurd rfl (start rfl)
        | false => exact .inl ⟨Option.some.inj number, rfl⟩
    | succ j =>
        exact .inr ⟨j, Nat.le_of_succ_le_succ below, number, nofun,
          fun same => last (congrArg Nat.succ same)⟩
  · rintro (⟨rfl, rfl⟩ | ⟨j, below, number, _, last⟩)
    · exact ⟨0, Nat.zero_le _, rfl, nofun, nofun⟩
    · exact ⟨j + 1, Nat.succ_le_succ below, number, fun _ => Nat.succ_ne_zero j,
        fun same => last (Nat.succ.inj same)⟩

/-- Behind nothing but spaces an item at the end of a line has passed no numeral. -/
theorem not_passed_of_eol {items : List (Item UInt8)} (plain : PlainFormat items) {k : Nat}
    {e : UInt8} {tail left : List UInt8} (eol : isEolCh e = true)
    (fails : FailsAt parsed items (e :: tail) k left) (first : Bool) :
    ¬ Passed items first k left := by
  obtain ⟨rfl, spaces⟩ := fails.of_stuck (plain.stuck eol tail)
  rintro ⟨j, below, number, _, last⟩
  rcases Nat.lt_or_eq_of_le below with before | rfl
  · rw [spaces j before] at number
    cases number
  · rw [last rfl e tail rfl] at eol
    cases eol

/-- A text is accepted only from something that ends no line. -/
theorem PlainFormat.moves {item : Item UInt8} {items : List (Item UInt8)} {text rest : List UInt8}
    {values : List UInt32} (plain : PlainFormat (item :: items))
    (accepts : Accepts parsed (item :: items) text values rest) :
    ∃ d tail, text = d :: tail ∧ isEolCh d = false := by
  have notStuck : ¬ Stuck parsed (item :: items) text := fun stuck =>
    List.cons_ne_nil item items (plain.not_spaces (accepts.of_stuck stuck))
  cases text with
  | nil => exact absurd (fun d tail none => by cases none) notStuck
  | cons d tail =>
      refine ⟨d, tail, rfl, ?_⟩
      cases eol : isEolCh d with
      | false => rfl
      | true => exact absurd (plain.stuck eol tail) notStuck

namespace Text

theorem matchvLoop_accepts {items : List (Item UInt8)} {text rest : List UInt8}
    {values : List UInt32} {args : VaList} (plain : PlainFormat items)
    (accepts : Accepts parsed items text values rest) (ready : Ready args items)
    (first mustMatch : Bool) :
    ∃ must after, matchvLoop (formatOf items) first false mustMatch args text =
      .ok ⟨true, must, after⟩ rest ∧ Stores args values after := by
  induction accepts generalizing args first mustMatch with
  | nil => exact ⟨mustMatch, args, rfl, .nil args⟩
  | @cons item items text middle last values more takes accepts ih =>
      obtain ⟨d, tail, front, notEol⟩ := plain.moves (.cons takes accepts)
      obtain ⟨after, step, stores, ready⟩ := matchvLoop_takes
        (plain.plain item List.mem_cons_self) takes front notEol ready first mustMatch
      obtain ⟨must, final, looped, rest⟩ := ih plain.tail ready false
        (mustMatch || commits first item)
      exact ⟨must, final, step.trans looped, stores.append rest⟩

theorem matchvLoop_failsAt {items : List (Item UInt8)} {text left : List UInt8} {k : Nat}
    {args : VaList} (plain : PlainFormat items) (fails : FailsAt parsed items text k left)
    (ready : Ready args items) (first mustMatch : Bool) :
    ∃ must after rest, matchvLoop (formatOf items) first false mustMatch args text =
      .ok ⟨false, must, after⟩ rest ∧
        (must = true ↔ mustMatch = true ∨ Passed items first k left) := by
  induction fails generalizing args first mustMatch with
  | @here item items text fails =>
      obtain ⟨d, tail, rfl⟩ := List.exists_cons_of_ne_nil (FailsAt.here items fails).text_ne_nil
      have plainItem := plain.plain item List.mem_cons_self
      cases eol : isEolCh d with
      | true =>
          have none := not_passed_of_eol plain eol (.here items fails) first
          exact ⟨mustMatch, args, _, matchvLoop_eol plainItem _ first mustMatch args eol tail,
            (or_iff_left none).symm⟩
      | false =>
          obtain ⟨after, rest, ended⟩ := matchvLoop_fails plainItem fails rfl eol ready first
            mustMatch
          exact ⟨_, after, rest, ended, by rw [passed_zero items eol, Bool.or_eq_true]⟩
  | @later item items text middle left values k takes fails ih =>
      obtain ⟨d, tail, rfl⟩ := List.exists_cons_of_ne_nil (FailsAt.later takes fails).text_ne_nil
      have plainItem := plain.plain item List.mem_cons_self
      cases eol : isEolCh d with
      | true =>
          have none := not_passed_of_eol plain eol (.later takes fails) first
          exact ⟨mustMatch, args, _, matchvLoop_eol plainItem _ first mustMatch args eol tail,
            (or_iff_left none).symm⟩
      | false =>
          obtain ⟨after, step, _, ready⟩ := matchvLoop_takes plainItem takes rfl eol ready first
            mustMatch
          obtain ⟨must, final, rest, ended, iff⟩ := ih plain.tail ready false
            (mustMatch || commits first item)
          refine ⟨must, final, rest, step.trans ended, ?_⟩
          rw [iff, passed_succ, Bool.or_eq_true, or_assoc]

theorem matchvLoop_waitsIn {items : List (Item UInt8)} {text : List UInt8} {args : VaList}
    (plain : PlainFormat items) (waits : WaitsIn parsed items text) (ready : Ready args items)
    (first mustMatch : Bool) :
    matchvLoop (formatOf items) first false mustMatch args text = .error .blocked [] := by
  induction waits generalizing args first mustMatch with
  | @here item items text waits =>
      have plainItem := plain.plain item List.mem_cons_self
      cases text with
      | nil => exact matchvLoop_nil plainItem _ first mustMatch args
      | cons d tail =>
          cases eol : isEolCh d with
          | true => exact absurd (plain.stuck eol tail) (WaitsIn.here items waits).not_stuck
          | false => exact matchvLoop_waits plainItem waits rfl eol ready first mustMatch
  | @later item items text middle values takes waits ih =>
      have plainItem := plain.plain item List.mem_cons_self
      cases text with
      | nil => exact matchvLoop_nil plainItem _ first mustMatch args
      | cons d tail =>
          cases eol : isEolCh d with
          | true => exact absurd (plain.stuck eol tail) (WaitsIn.later takes waits).not_stuck
          | false =>
              obtain ⟨after, step, _, ready⟩ := matchvLoop_takes plainItem takes rfl eol ready
                first mustMatch
              exact step.trans (ih plain.tail ready false _)

end Text

/-! ## The whole match -/

/-- Leading blank lines and blanks, and what comes behind them. -/
structure Leads (text ws body : List UInt8) : Prop where
  split : text = ws ++ body
  leading : ∀ c ∈ ws, Text.isWsCh c = true
  front : ∃ d tail, body = d :: tail ∧ Text.isWsCh d = false

theorem Leads.dropWs {text ws body : List UInt8} (leads : Leads text ws body) :
    Text.dropWs text = body := by
  obtain ⟨rfl, leading, d, tail, rfl, other⟩ := leads
  rw [Text.dropWs, Input.dropWhile_append_of_all leading]
  exact Text.dropWs_cons tail other

theorem exists_leads {text : List UInt8} (some : Text.dropWs text ≠ []) :
    ∃ ws, Leads text ws (Text.dropWs text) := by
  obtain ⟨ws, split, leading⟩ := Input.dropWhile_split Text.isWsCh text
  obtain ⟨d, tail, kept⟩ := List.exists_cons_of_ne_nil some
  exact ⟨ws, split, leading, d, tail, kept, Input.head_of_dropWhile kept⟩

/-- The panic of `matchv`. -/
def mustMatchFailed : Stop := .panic "must match failed: malformed value for <%s>!\n"

namespace Text

variable {items : List (Item UInt8)} {text ws body rest left : List UInt8} {args : VaList}

theorem skipLeading_leads (leads : Leads text ws body) : skipLeading text = .ok () body := by
  obtain ⟨d, tail, front, _⟩ := leads.front
  rw [skipLeading_eq, leads.dropWs, if_neg (by rw [front]; exact List.cons_ne_nil d tail)]

theorem matchv_accepts (plain : PlainFormat items) (ready : Ready args items)
    (leads : Leads text ws body) {values : List UInt32}
    (accepts : Accepts parsed items body values rest) :
    ∃ after, matchv (formatOf items) args text = .ok (true, after) rest ∧
      Stores args values after := by
  obtain ⟨must, after, looped, stores⟩ := matchvLoop_accepts plain accepts ready true false
  refine ⟨after, ?_, stores⟩
  rw [matchv, Prog.bind_of_ok (Prog.get_apply text), Prog.bind_of_ok (skipLeading_leads leads),
    Prog.bind_of_ok looped, if_pos rfl]
  rfl

theorem matchv_failsAt (plain : PlainFormat items) (ready : Ready args items)
    (leads : Leads text ws body) {k : Nat} (fails : FailsAt parsed items body k left) :
    (Passed items true k left → ∃ last, matchv (formatOf items) args text =
      .error mustMatchFailed last) ∧
    (¬ Passed items true k left → ∃ after, matchv (formatOf items) args text =
      .ok (false, after) text) := by
  obtain ⟨must, after, rest, looped, iff⟩ := matchvLoop_failsAt plain fails ready true false
  rw [or_iff_right Bool.false_ne_true] at iff
  rw [matchv, Prog.bind_of_ok (Prog.get_apply text), Prog.bind_of_ok (skipLeading_leads leads),
    Prog.bind_of_ok looped, if_neg Bool.false_ne_true]
  constructor
  · intro passed
    rw [iff.mpr passed, if_pos rfl]
    exact ⟨rest, rfl⟩
  · intro none
    rw [if_neg (mt iff.mp none)]
    exact ⟨after, rfl⟩

theorem matchv_waitsIn (plain : PlainFormat items) (ready : Ready args items)
    (leads : Leads text ws body) (waits : WaitsIn parsed items body) :
    matchv (formatOf items) args text = .error .blocked [] := by
  rw [matchv, Prog.bind_of_ok (Prog.get_apply text), Prog.bind_of_ok (skipLeading_leads leads),
    Prog.bind_of_error (matchvLoop_waitsIn plain waits ready true false)]

/-- What `matchv` returned 1 for is in the language. -/
theorem accepts_of_matchv (plain : PlainFormat items) (ready : Ready args items)
    {after : VaList} (returned : matchv (formatOf items) args text = .ok (true, after) rest) :
    ∃ ws body values rest, Leads text ws body ∧ Accepts parsed items body values rest := by
  by_cases none : dropWs text = []
  · rw [matchv, Prog.bind_of_ok (Prog.get_apply text),
      Prog.bind_of_error ((skipLeading_eq text).trans (if_pos none))] at returned
    cases returned
  · obtain ⟨ws, leads⟩ := exists_leads none
    obtain ⟨values, rest, accepts⟩ | ⟨k, left, fails⟩ | waits :=
      accepts_or_failsAt_or_waitsIn parsed items (dropWs text)
    · exact ⟨ws, _, values, rest, leads, accepts⟩
    · obtain ⟨panics, refuses⟩ := matchv_failsAt plain ready leads fails
      by_cases passed : Passed items true k left
      · obtain ⟨last, stopped⟩ := panics passed
        rw [stopped] at returned
        cases returned
      · obtain ⟨after, refused⟩ := refuses passed
        rw [refused] at returned
        cases returned
    · rw [matchv_waitsIn plain ready leads waits] at returned
      cases returned

end Text

/-! ## The panic of a match that failed -/

/-- Every item before some `%` that is not the first character has matched. -/
def BehindNumber (items : List (Item UInt8)) (k : Nat) : Prop :=
  ∃ j, 1 ≤ j ∧ j ≤ k ∧ items[j]? = some .number

/-- The first item that does not match is the first numeral behind the start of
the format, and the line ends right behind what was matched. -/
def EndsAtNumber (items : List (Item UInt8)) (text : List UInt8) : Prop :=
  ∃ ws body k e tail, Leads text ws body ∧ FailsAt parsed items body k (e :: tail) ∧
    isEolCh e = true ∧ 1 ≤ k ∧ items[k]? = some .number ∧
      ∀ j, 1 ≤ j → j < k → items[j]? ≠ some .number

theorem Passed.behindNumber {items : List (Item UInt8)} {k : Nat} {left : List UInt8}
    (passed : Passed items true k left) : BehindNumber items k := by
  obtain ⟨j, below, number, start, _⟩ := passed
  exact ⟨j, Nat.pos_of_ne_zero (start rfl), below, number⟩

/-- The code looks for the end of the line before it commits itself. -/
theorem endsAtNumber_of_not_passed {items : List (Item UInt8)} {text ws body left : List UInt8}
    {k : Nat} (leads : Leads text ws body) (fails : FailsAt parsed items body k left)
    (behind : BehindNumber items k) (none : ¬ Passed items true k left) :
    EndsAtNumber items text := by
  have earlier : ∀ j, 1 ≤ j → j < k → items[j]? ≠ some .number := by
    intro j start before number
    exact none ⟨j, Nat.le_of_lt before, number, fun _ => Nat.ne_of_gt start,
      fun same => absurd same (Nat.ne_of_lt before)⟩
  obtain ⟨j, start, below, number⟩ := behind
  rcases Nat.lt_or_eq_of_le below with before | rfl
  · exact absurd number (earlier j start before)
  · obtain ⟨e, tail, rfl⟩ := List.exists_cons_of_ne_nil fails.left_ne_nil
    cases eol : isEolCh e with
    | true => exact ⟨ws, body, j, e, tail, leads, fails, eol, start, number, earlier⟩
    | false =>
        refine absurd ⟨j, below, number, fun _ => Nat.ne_of_gt start, fun _ d rest same => ?_⟩ none
        cases same
        exact eol

/-- `matchv` accepts exactly the language of its format, and panics on a mismatch
exactly behind a numeral. -/
structure MatchesLanguage (items : List (Item UInt8)) (args : VaList) (input text : List UInt8)
    (outcome : Outcome (Lex LexSimple) (Bool × VaList)) : Prop where
  accepted : ∀ {ws body values rest}, Leads text ws body →
    Accepts parsed items body values rest →
      ∃ after l, outcome = .ok (true, after) l ∧ At input rest l ∧ Stores args values after
  only : ∀ {after l}, outcome = .ok (true, after) l →
    ∃ ws body values rest, Leads text ws body ∧ Accepts parsed items body values rest
  mismatch : ∀ {ws body k left}, Leads text ws body → FailsAt parsed items body k left →
    (BehindNumber items k → ∃ l, outcome = .error mustMatchFailed l) ∧
      (¬ BehindNumber items k → ∃ after l, outcome = .ok (false, after) l)

/-- For every format of plain characters, spaces and `%u` that does not end in a
space and every input, `matchv` follows the language if and only if the input
does not end a line right where the first numeral behind the start is expected. -/
theorem matchv_matches_language_iff {items : List (Item UInt8)} {args : VaList}
    {input text : List UInt8} {l : Lex LexSimple} (plain : PlainFormat items)
    (ready : Ready args items) (here : At input text l) :
    MatchesLanguage items args input text (matchv (formatOf items) args l) ↔
      ¬ EndsAtNumber items text := by
  have agree := here.matchv (formatOf items) args
  constructor
  · rintro language ⟨ws, body, k, e, tail, leads, fails, eol, start, number, earlier⟩
    have none : ¬ Passed items true k (e :: tail) := by
      rintro ⟨j, below, number, notFirst, last⟩
      rcases Nat.lt_or_eq_of_le below with before | rfl
      · exact earlier j (Nat.pos_of_ne_zero (notFirst rfl)) before number
      · rw [last rfl e tail rfl] at eol
        cases eol
    obtain ⟨after, refused⟩ := (Text.matchv_failsAt plain ready leads fails).2 none
    rw [refused] at agree
    obtain ⟨_, ran, _⟩ := agree.right_of_ok
    obtain ⟨_, panicked⟩ := (language.mismatch leads fails).1 ⟨k, start, Nat.le_refl k, number⟩
    rw [ran] at panicked
    cases panicked
  · intro notAtNumber
    refine ⟨fun leads accepts => ?_, fun {after l'} returned => ?_, fun leads fails => ?_⟩
    · obtain ⟨after, matched, stores⟩ := Text.matchv_accepts plain ready leads accepts
      rw [matched] at agree
      obtain ⟨l', ran, there⟩ := agree.right_of_ok
      exact ⟨after, l', ran, there, stores⟩
    · rw [returned] at agree
      generalize ideal : Text.matchv (formatOf items) args text = outcome at agree
      cases agree
      exact Text.accepts_of_matchv plain ready ideal
    · obtain ⟨panics, refuses⟩ := Text.matchv_failsAt plain ready leads fails
      constructor
      · intro behind
        have passed := Classical.byContradiction fun none =>
          notAtNumber (endsAtNumber_of_not_passed leads fails behind none)
        obtain ⟨last, panicked⟩ := panics passed
        rw [panicked] at agree
        obtain ⟨l', ran⟩ := agree.right_of_error
        exact ⟨l', ran⟩
      · intro before
        obtain ⟨after, refused⟩ := refuses (mt Passed.behindNumber before)
        rw [refused] at agree
        obtain ⟨l', ran, _⟩ := agree.right_of_ok
        exact ⟨after, l', ran⟩

/-- The format `%u, %u`. -/
def twoNumbers : List (Item UInt8) := [.number, .char 44, .space, .number]

/-- Two numbers that arrive in two bursts. -/
def numbersCut : List Poll :=
  [.data ⟨ascii " 12 ,", by decide, by decide⟩, .quiet, .data ⟨ascii " 345:", by decide, by decide⟩]

theorem matchv_matches_language_iff_of_numbersCut :
    MatchesLanguage twoNumbers ⟨[.uint 0, .uint 0], 0⟩ (arriving numbersCut) (arriving numbersCut)
      (matchv (formatOf twoNumbers) ⟨[.uint 0, .uint 0], 0⟩
        (⟨LexSimple.init, numbersCut⟩ : Lex LexSimple)) := by
  have here : At (arriving numbersCut) (arriving numbersCut) ⟨LexSimple.init, numbersCut⟩ :=
    At.init (h := numbersCut) (by decide)
  have plain : PlainFormat twoNumbers := by
    refine ⟨fun item mem c same => ?_, by decide⟩
    subst same
    have comma : c = 44 := by simpa [twoNumbers] using mem
    rw [comma]
    decide
  have ready : Ready ⟨[.uint 0, .uint 0], 0⟩ twoNumbers := by
    refine ⟨fun cell mem => ⟨0, ?_⟩, by decide⟩
    simpa using mem
  refine (matchv_matches_language_iff plain ready here).mpr ?_
  rintro ⟨ws, body, k, e, tail, leads, fails, eol, _⟩
  have noEol : ∀ c ∈ arriving numbersCut, isEolCh c = false := by decide
  have mem : e ∈ arriving numbersCut := by
    rw [leads.split]
    exact List.mem_append_right ws (fails.suffix.subset List.mem_cons_self)
  rw [noEol e mem] at eol
  cases eol

/-- The format `+%u`. -/
def plusNumber : List (Item UInt8) := [.char 43, .number]

/-- The line ends where the number is expected. -/
def plusCut : List Poll := [.data ⟨ascii "+\r\n", by decide, by decide⟩]

/-- The same line with a blank at its end. -/
def plusBlank : List Poll := [.data ⟨ascii "+ \r\n", by decide, by decide⟩]

/-- The match returns 0, and the one with the blank panics. -/
theorem missing_number_returns_zero :
    returned? (matchv (formatOf plusNumber) ⟨[.uint 9], 0⟩
        (⟨LexSimple.init, plusCut⟩ : Lex LexSimple)) = some (false, ⟨[.uint 9], 0⟩) ∧
      stopped? (matchv (formatOf plusNumber) ⟨[.uint 9], 0⟩
        (⟨LexSimple.init, plusBlank⟩ : Lex LexSimple)) = some mustMatchFailed ∧
      ¬ MatchesLanguage plusNumber ⟨[.uint 9], 0⟩ (arriving plusCut) (arriving plusCut)
        (matchv (formatOf plusNumber) ⟨[.uint 9], 0⟩
          (⟨LexSimple.init, plusCut⟩ : Lex LexSimple)) := by
  have refused : returned? (matchv (formatOf plusNumber) ⟨[.uint 9], 0⟩
      (⟨LexSimple.init, plusCut⟩ : Lex LexSimple)) = some (false, ⟨[.uint 9], 0⟩) := by
    decide +kernel
  refine ⟨refused, by decide +kernel, fun language => ?_⟩
  have none : ∀ b ∈ ([] : List UInt8), isSpaceCh b = true :=
    fun _ none => absurd none List.not_mem_nil
  have leads : Leads (arriving plusCut) [] (ascii "+\r\n") :=
    ⟨rfl, fun _ none => absurd none List.not_mem_nil, 43, ascii "\r\n", rfl, rfl⟩
  have matched : Matches parsed (.char 43) ([] ++ 43 :: ascii "\r\n") [] (ascii "\r\n") :=
    .char none (ascii "\r\n")
  have missing : Fails parsed .number ([] ++ 13 :: ascii "\n") :=
    .number none rfl rfl (ascii "\n")
  have fails : FailsAt parsed plusNumber (ascii "+\r\n") 1 (ascii "\r\n") :=
    .later matched (.here [] missing)
  obtain ⟨l, panicked⟩ := (language.mismatch leads fails).1
    ⟨1, Nat.le_refl 1, Nat.le_refl 1, rfl⟩
  rw [panicked] at refused
  cases refused

end Cs140e.Esp
