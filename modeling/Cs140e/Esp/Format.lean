import Cs140e.Esp.Numbers

/-!
# What a format matches

When a match succeeds the text it has taken shows the format: the characters of
the format with blanks before them, and a numeral for each `%u`.
-/

namespace Cs140e.Esp

open Cs140e.Library
open Text (isWsCh)

/-! ## Formats and texts -/

/-- The text shows the format with these numbers. -/
inductive Shows : List UInt8 → List UInt32 → List UInt8 → Prop where
  | nil : Shows [] [] []
  | space {fmt text : List UInt8} {values : List UInt32} (rest : Shows fmt values text) :
      Shows (32 :: fmt) values text
  | char {f : UInt8} {fmt blanks text : List UInt8} {values : List UInt32} (literal : f ≠ 37)
      (all : ∀ c ∈ blanks, isSpaceCh c = true) (rest : Shows fmt values text) :
      Shows (f :: fmt) values (blanks ++ f :: text)
  | uint {fmt blanks numeral text : List UInt8} {values : List UInt32}
      (all : ∀ c ∈ blanks, isSpaceCh c = true) (digits : ∀ c ∈ numeral, isdigit c = true)
      (nonempty : numeral ≠ []) (rest : Shows fmt values text) :
      Shows (37 :: 117 :: fmt) (UInt32.ofNat (Decimal.value numeral) :: values)
        (blanks ++ (numeral ++ text))

/-- There is a number for each conversion. -/
theorem Shows.count {fmt text : List UInt8} {values : List UInt32}
    (shows : Shows fmt values text) : values.length = fmt.count 37 := by
  induction shows with
  | nil => rfl
  | space rest ih => rw [ih, List.count_cons_of_ne (by decide)]
  | char literal all rest ih => rw [ih, List.count_cons_of_ne literal]
  | uint all digits nonempty rest ih =>
      rw [List.length_cons, ih, List.count_cons_self, List.count_cons_of_ne (by decide)]

/-- A line that shows the format, with the blank lines before it. -/
def ShownLine (fmt : List UInt8) (values : List UInt32) (taken : List UInt8) : Prop :=
  ∃ ws shown blanks ending, taken = ws ++ (shown ++ (blanks ++ ending)) ∧
    (∀ c ∈ ws, isWsCh c = true) ∧ Shows fmt values shown ∧
      (∀ c ∈ blanks, isSpaceCh c = true) ∧ ending ≠ [] ∧ ∀ c ∈ ending, isEolCh c = true

/-- A token with the blank lines before it. -/
def ShownTok (tok taken : List UInt8) : Prop :=
  ∃ ws, taken = ws ++ tok ∧ ∀ c ∈ ws, isWsCh c = true

/-- Further end-of-line bytes belong to the line. -/
theorem ShownLine.append {fmt taken eols : List UInt8} {values : List UInt32}
    (line : ShownLine fmt values taken) (all : ∀ c ∈ eols, isEolCh c = true) :
    ShownLine fmt values (taken ++ eols) := by
  obtain ⟨ws, shown, blanks, ending, rfl, allWs, shows, allBlank, nonempty, allEol⟩ := line
  refine ⟨ws, shown, blanks, ending ++ eols, ?_, allWs, shows, allBlank, ?_, ?_⟩
  · simp only [List.append_assoc]
  · exact List.append_ne_nil_of_left_ne_nil nonempty eols
  · intro c mem
    rcases List.mem_append.mp mem with mem | mem
    · exact allEol c mem
    · exact all c mem

/-! ## Arguments -/

/-- All arguments point to numbers. -/
def VaList.Uints (args : VaList) : Prop := ∀ cell ∈ args.cells, ∃ value, cell = .uint value

/-- The numbers are stored through the next arguments. -/
inductive Stores : VaList → List UInt32 → VaList → Prop where
  | nil (args : VaList) : Stores args [] args
  | cons {args after : VaList} {value : UInt32} {values : List UInt32}
      (room : args.next < args.cells.length)
      (rest : Stores ⟨args.cells.set args.next (.uint value), args.next + 1⟩ values after) :
      Stores args (value :: values) after

theorem VaList.Uints.set {args : VaList} (uints : args.Uints) (next : Nat) (value : UInt32) :
    VaList.Uints ⟨args.cells.set args.next (.uint value), next⟩ := by
  intro cell mem
  rcases List.mem_or_eq_of_mem_set mem with mem | rfl
  · exact uints cell mem
  · exact ⟨value, rfl⟩

/-- A single number that is stored is the one that is found. -/
theorem Stores.single {start args : VaList} {value : UInt32} (stores : Stores start [value] args)
    (one : start.cells.length = 1) : args.cells = [.uint value] := by
  cases stores with
  | cons room rest =>
      cases rest
      obtain ⟨cell, cells⟩ := List.length_eq_one_iff.mp one
      have first : start.next = 0 := by omega
      rw [cells, first]
      rfl

/-! ## Matches that succeeded -/

namespace Text

variable {text rest : List UInt8}

theorem matchEol_took (returned : matchEol text = .ok true rest) :
    ∃ blanks e, text = blanks ++ e :: rest ∧ (∀ c ∈ blanks, isSpaceCh c = true) ∧
      isEolCh e = true := by
  rw [matchEol] at returned
  cases kept : dropBlanks text with
  | nil => simp only [kept] at returned; cases returned
  | cons c tail =>
      simp only [kept] at returned
      split at returned
      · case isTrue eol =>
          cases returned
          obtain ⟨blanks, split, all⟩ := Input.dropWhile_split isSpaceCh text
          rw [dropBlanks] at kept
          rw [kept] at split
          exact ⟨blanks, c, split, all, eol⟩
      · cases returned

theorem matchUint_took {value : UInt32} (returned : matchUint text = .ok (true, value) rest) :
    ∃ blanks numeral, text = blanks ++ (numeral ++ rest) ∧
      (∀ c ∈ blanks, isSpaceCh c = true) ∧ (∀ c ∈ numeral, isdigit c = true) ∧ numeral ≠ [] ∧
        value = UInt32.ofNat (Decimal.value numeral) := by
  obtain ⟨_, middle, skipped, returned⟩ := Prog.ok_of_bind_ok returned
  obtain ⟨⟨x, i⟩, last, looped, returned⟩ := Prog.ok_of_bind_ok returned
  obtain ⟨blanks, rfl, all⟩ := Input.skipWhile_took skipped
  have loop := uintLoop_eq 0 0 middle
  have zero : UInt32.ofNat 0 = 0 := rfl
  rw [zero, looped] at loop
  cases kept : middle.dropWhile isdigit with
  | nil => simp only [kept] at loop; cases loop
  | cons c tail =>
      simp only [kept] at loop
      cases loop
      change EStateM.Result.ok (decide (0 + (middle.takeWhile isdigit).length ≠ 0), _) (c :: tail) =
        _ at returned
      injection returned with pair same
      injection pair with some valueEq
      refine ⟨blanks, middle.takeWhile isdigit, ?_, all, fun c mem => List.mem_takeWhile_imp mem,
        ?_, valueEq.symm⟩
      · rw [← same, ← kept, List.takeWhile_append_dropWhile]
      · intro none
        rw [none] at some
        exact absurd some (by decide)

theorem arg_took {args after : VaList} {cell : Cell} (uints : args.Uints)
    (returned : (args.arg : Prog (List UInt8) (Cell × VaList)) text = .ok (cell, after) rest) :
    args.next < args.cells.length ∧ (∃ value, cell = .uint value) ∧ rest = text ∧
      after = { args with next := args.next + 1 } := by
  rw [VaList.arg] at returned
  cases fetched : args.cells[args.next]? with
  | none => simp only [fetched] at returned; cases returned
  | some found =>
      simp only [fetched] at returned
      cases returned
      obtain ⟨room, same⟩ := List.getElem?_eq_some_iff.mp fetched
      exact ⟨room, uints _ (List.mem_of_getElem? fetched), rfl, rfl⟩

/-- The numbers a conversion may store, and what it has taken then. -/
theorem matchConversion_took {conversion : UInt8} {args after : VaList} {found : Bool}
    (uints : args.Uints)
    (returned : matchConversion conversion args text = .ok (found, after) rest) :
    conversion = 117 ∧ ∃ value, args.next < args.cells.length ∧
      after = ⟨args.cells.set args.next (.uint value), args.next + 1⟩ ∧
      (found = true → ∃ blanks numeral, text = blanks ++ (numeral ++ rest) ∧
        (∀ c ∈ blanks, isSpaceCh c = true) ∧ (∀ c ∈ numeral, isdigit c = true) ∧
          numeral ≠ [] ∧ value = UInt32.ofNat (Decimal.value numeral)) := by
  rw [matchConversion] at returned
  split at returned
  · obtain ⟨⟨cell, fetchedArgs⟩, middle, fetched, returned⟩ := Prog.ok_of_bind_ok returned
    obtain ⟨room, isUint, _⟩ := arg_took uints fetched
    obtain ⟨old, rfl⟩ := isUint
    cases returned
  · split at returned
    · case isTrue number =>
        obtain ⟨⟨cell, fetchedArgs⟩, middle, fetched, returned⟩ := Prog.ok_of_bind_ok returned
        obtain ⟨room, isUint, rfl, rfl⟩ := arg_took uints fetched
        obtain ⟨old, rfl⟩ := isUint
        obtain ⟨⟨found', value⟩, last, matched, returned⟩ := Prog.ok_of_bind_ok returned
        cases returned
        refine ⟨number, value, room, rfl, ?_⟩
        rintro rfl
        exact matchUint_took matched
    · cases returned

/-- What the loop of `matchv` has stored, and what it has taken if it matched.
After a `%` the format still starts with it. -/
structure LoopTook (fmt : List UInt8) (args : VaList) (text rest : List UInt8) (result : Matchv) :
    Prop where
  uints : result.args.Uints
  length : result.args.cells.length = args.cells.length
  shown : result.matched = true → ∃ values shown, text = shown ++ rest ∧ Shows fmt values shown ∧
    Stores args values result.args

theorem LoopTook.failed {fmt : List UInt8} {args after : VaList} {mustMatch : Bool}
    (uints : after.Uints) (length : after.cells.length = args.cells.length) :
    LoopTook fmt args text rest ⟨false, mustMatch, after⟩ :=
  ⟨uints, length, fun matched => absurd matched Bool.false_ne_true⟩

theorem matchvLoop_took {fmt : List UInt8} {first percent mustMatch : Bool} {args : VaList}
    {result : Matchv} (uints : args.Uints)
    (returned : matchvLoop fmt first percent mustMatch args text = .ok result rest) :
    LoopTook (if percent then 37 :: fmt else fmt) args text rest result := by
  induction fmt generalizing first percent mustMatch args text with
  | nil =>
      cases percent with
      | true => cases returned
      | false =>
          cases returned
          exact ⟨uints, rfl, fun _ => ⟨[], [], rfl, .nil, .nil args⟩⟩
  | cons f fmt ih =>
      cases percent with
      | true =>
          obtain ⟨⟨found, argsAfter⟩, middle, converted, returned⟩ := Prog.ok_of_bind_ok returned
          obtain ⟨rfl, value, room, rfl, shown⟩ := matchConversion_took uints converted
          dsimp only at returned
          cases found with
          | false =>
              cases returned
              exact .failed (uints.set _ value) (List.length_set)
          | true =>
              obtain ⟨blanks, numeral, rfl, all, digits, nonempty, rfl⟩ := shown rfl
              have loop := ih (uints.set _ _) returned
              refine ⟨loop.uints, loop.length.trans List.length_set, fun matched => ?_⟩
              obtain ⟨values, text, rfl, shows, stores⟩ := loop.shown matched
              refine ⟨_ :: values, blanks ++ (numeral ++ text), ?_,
                .uint all digits nonempty shows, .cons room stores⟩
              simp only [List.append_assoc]
      | false =>
          rw [matchvLoop] at returned
          obtain ⟨_, checked, asserted, looks⟩ := Prog.ok_of_bind_ok returned
          obtain ⟨_, rfl⟩ := Prog.holds_of_assertThat_ok asserted
          obtain ⟨c, peeked, front, branches⟩ := Prog.ok_of_bind_ok looks
          have same : peeked = checked := by
            cases checked with
            | nil => cases front
            | cons d text =>
                cases front
                rfl
          subst same
          split at branches
          · cases branches
            exact .failed uints rfl
          · split at branches
            · case isTrue literal =>
                split at branches
                · obtain ⟨_, middle, skipped, takes⟩ := Prog.ok_of_bind_ok branches
                  obtain ⟨blanks, rfl, all⟩ := Input.skipWhile_took skipped
                  obtain ⟨d, last, took, compares⟩ := Prog.ok_of_bind_ok takes
                  cases middle with
                  | nil => cases took
                  | cons g middle =>
                      cases took
                      split at compares
                      · cases compares
                        exact .failed uints rfl
                      · case isFalse equal =>
                          rw [not_not] at equal
                          subst equal
                          have loop := ih uints compares
                          refine ⟨loop.uints, loop.length, fun matched => ?_⟩
                          obtain ⟨values, text, rfl, shows, stores⟩ := loop.shown matched
                          refine ⟨values, blanks ++ d :: text, ?_, .char literal all shows, stores⟩
                          simp only [List.append_assoc, List.cons_append]
                · case isFalse space =>
                    rw [not_not] at space
                    subst space
                    have loop := ih uints branches
                    refine ⟨loop.uints, loop.length, fun matched => ?_⟩
                    obtain ⟨values, text, rfl, shows, stores⟩ := loop.shown matched
                    exact ⟨values, text, rfl, .space shows, stores⟩
            · case isFalse conversion =>
                rw [not_not] at conversion
                subst conversion
                exact ih uints branches

end Text

end Cs140e.Esp
