import Cs140e.Library.Decimal
import Cs140e.Esp.Text

/-!
# Numbers in formats

The conversion `%u` reads the numeral in front of it as a number modulo 2^32
and leaves everything behind it.
-/

namespace Cs140e.Esp.Text

open Cs140e.Library

/-! ## Numbers -/

theorem isdigit_iff {c : UInt8} : isdigit c = true ↔ Decimal.IsDigit c := by
  rw [isdigit, Bool.and_eq_true, decide_eq_true_iff, decide_eq_true_iff, Decimal.IsDigit]
  exact Iff.rfl

theorem not_space_of_digit {c : UInt8} (digit : isdigit c = true) : isSpaceCh c = false := by
  cases space : isSpaceCh c with
  | false => rfl
  | true =>
      rw [isSpaceCh, Bool.or_eq_true, beq_iff_eq, beq_iff_eq] at space
      rcases space with rfl | rfl <;> cases digit

theorem not_eol_of_digit {c : UInt8} (digit : isdigit c = true) : isEolCh c = false := by
  cases eol : isEolCh c with
  | false => rfl
  | true =>
      rw [isEolCh, Bool.or_eq_true, beq_iff_eq, beq_iff_eq] at eol
      rcases eol with rfl | rfl <;> cases digit

theorem uint_step (value : Nat) {c : UInt8} (digit : isdigit c = true) :
    UInt32.ofNat value * 10 + c.toUInt32 - 48 =
      UInt32.ofNat (10 * value + (c.toNat - 48)) := by
  have bounds := isdigit_iff.mp digit
  rw [Decimal.IsDigit] at bounds
  have ten : (10 : UInt32).toNat = 10 := rfl
  have zeroChar : (48 : UInt32).toNat = 48 := rfl
  apply UInt32.toNat_inj.mp
  rw [UInt32.toNat_sub, UInt32.toNat_add, UInt32.toNat_mul, UInt32.toNat_ofNat',
    UInt32.toNat_ofNat', UInt8.toNat_toUInt32, ten, zeroChar]
  omega

/-- The number read is the one of the numeral, modulo 2^32. -/
theorem uintLoop_eq (value i : Nat) (text : List UInt8) :
    uintLoop (UInt32.ofNat value) i text =
      match text.dropWhile isdigit with
      | [] => .error .blocked []
      | c :: rest =>
          .ok (UInt32.ofNat (Decimal.valueFrom value (text.takeWhile isdigit)),
            i + (text.takeWhile isdigit).length) (c :: rest) := by
  induction text generalizing value i with
  | nil => rfl
  | cons c text ih =>
      rw [uintLoop]
      cases digit : isdigit c with
      | false =>
          have stop : ¬ isdigit c = true := by
            rw [digit]
            exact Bool.false_ne_true
          rw [if_neg Bool.false_ne_true, List.dropWhile_cons_of_neg stop,
            List.takeWhile_cons_of_neg stop]
          rfl
      | true =>
          rw [if_pos rfl, uint_step value digit, ih, List.dropWhile_cons_of_pos digit,
            List.takeWhile_cons_of_pos digit]
          cases text.dropWhile isdigit with
          | nil => rfl
          | cons d rest =>
              dsimp only
              rw [List.length_cons, Nat.add_assoc, Nat.add_comm 1]
              rfl

/-- A numeral is read up to the first byte that is no digit. -/
theorem uintLoop_numeral {numeral : List UInt8} (digits : ∀ c ∈ numeral, isdigit c = true)
    {c : UInt8} (stop : isdigit c = false) (rest : List UInt8) :
    uintLoop 0 0 (numeral ++ c :: rest) =
      .ok (UInt32.ofNat (Decimal.value numeral), numeral.length) (c :: rest) := by
  have notDigit : ¬ isdigit c = true := by
    rw [stop]
    exact Bool.false_ne_true
  have looped := uintLoop_eq 0 0 (numeral ++ c :: rest)
  rw [List.dropWhile_append_of_pos digits, List.takeWhile_append_of_pos digits,
    List.dropWhile_cons_of_neg notDigit, List.takeWhile_cons_of_neg notDigit, List.append_nil,
    Nat.zero_add] at looped
  exact looped

theorem matchUint_numeral {numeral : List UInt8} (digits : ∀ c ∈ numeral, isdigit c = true)
    (nonempty : numeral ≠ []) {c : UInt8} (stop : isdigit c = false) (rest : List UInt8) :
    matchUint (numeral ++ c :: rest) =
      .ok (true, UInt32.ofNat (Decimal.value numeral)) (c :: rest) := by
  obtain ⟨d, more, rfl⟩ := List.exists_cons_of_ne_nil nonempty
  have skipped : skipBlankSpace (d :: more ++ c :: rest) = .ok () (d :: more ++ c :: rest) := by
    rw [skipBlankSpace, List.cons_append]
    exact Input.skipWhile_cons_of_not (not_space_of_digit (digits d List.mem_cons_self)) _
  rw [matchUint, Prog.bind_of_ok skipped, Prog.bind_of_ok (uintLoop_numeral digits stop rest)]
  rfl

/-! ## One step of a format -/

theorem matchvLoop_char {f : UInt8} (notEol : isEolCh f = false) (notSpace : isSpaceCh f = false)
    (notPercent : f ≠ 37) (fmt : List UInt8) (first mustMatch : Bool) (args : VaList)
    (rest : List UInt8) :
    matchvLoop (f :: fmt) first false mustMatch args (f :: rest) =
      matchvLoop fmt false false mustMatch args rest := by
  have checked : (Prog.assertThat (!isEolCh f) "!is_eol_ch(*fmt)" : Prog (List UInt8) Unit)
      (f :: rest) = .ok () (f :: rest) := by
    rw [notEol]
    rfl
  have printed : f ≠ 32 := by
    rintro rfl
    cases notSpace
  have skipped : skipBlankSpace (f :: rest) = .ok () (f :: rest) :=
    Input.skipWhile_cons_of_not notSpace rest
  rw [matchvLoop, Prog.bind_of_ok checked, Prog.bind_of_ok (Input.front_cons f rest),
    if_neg (by rw [notEol]; exact Bool.false_ne_true), if_pos notPercent, if_pos printed,
    Prog.bind_of_ok skipped, Prog.bind_of_ok (Input.next_cons f rest), if_neg (not_not.mpr rfl)]

/-- In front of a `%` the loop only tests for the end of the line. -/
theorem matchvLoop_percent {c : UInt8} (notEol : isEolCh c = false) (fmt : List UInt8)
    (first mustMatch : Bool) (args : VaList) (rest : List UInt8) :
    matchvLoop (37 :: fmt) first false mustMatch args (c :: rest) =
      matchvLoop fmt false true (mustMatch || !first) args (c :: rest) := by
  have checked : (Prog.assertThat (!isEolCh 37) "!is_eol_ch(*fmt)" : Prog (List UInt8) Unit)
      (c :: rest) = .ok () (c :: rest) := rfl
  rw [matchvLoop, Prog.bind_of_ok checked, Prog.bind_of_ok (Input.front_cons c rest),
    if_neg (by rw [notEol]; exact Bool.false_ne_true), if_neg (not_not_intro rfl)]

/-- In front of a numeral the argument is fetched. -/
theorem matchvLoop_conversion {d : UInt8} (notEol : isEolCh d = false) (fmt : List UInt8)
    (first mustMatch : Bool) {args : VaList} {old : UInt32}
    (cell : args.cells[args.next]? = some (.uint old)) (rest : List UInt8) :
    matchvLoop (37 :: 117 :: fmt) first false mustMatch args (d :: rest) =
      (do
        let (found, u) ← matchUint
        let args : VaList := ⟨args.cells.set args.next (.uint u), args.next + 1⟩
        if found then matchvLoop fmt false false (mustMatch || !first) args
        else pure ⟨false, mustMatch || !first, args⟩ : Prog (List UInt8) Matchv) (d :: rest) := by
  have fetched : (args.arg : Prog (List UInt8) (Cell × VaList)) (d :: rest) =
      .ok (.uint old, { args with next := args.next + 1 }) (d :: rest) := by
    rw [VaList.arg]
    simp only [cell]
    rfl
  rw [matchvLoop_percent notEol, matchvLoop]
  cases read : matchUint (d :: rest) with
  | error stop last =>
      have converted : matchConversion 117 args (d :: rest) = .error stop last := by
        rw [matchConversion, if_neg (by decide), if_pos rfl, Prog.bind_of_ok fetched]
        exact Prog.bind_of_error read
      rw [Prog.bind_of_error converted, Prog.bind_of_error read]
  | ok result last =>
      obtain ⟨found, u⟩ := result
      have converted : matchConversion 117 args (d :: rest) =
          .ok (found, ⟨args.cells.set args.next (.uint u), args.next + 1⟩) last := by
        rw [matchConversion, if_neg (by decide), if_pos rfl, Prog.bind_of_ok fetched]
        exact Prog.bind_of_ok read
      rw [Prog.bind_of_ok converted, Prog.bind_of_ok read]

theorem matchvLoop_uint {numeral : List UInt8} (digits : ∀ c ∈ numeral, isdigit c = true)
    (nonempty : numeral ≠ []) {c : UInt8} (stop : isdigit c = false) (fmt : List UInt8)
    (first mustMatch : Bool) (args : VaList) {old : UInt32}
    (cell : args.cells[args.next]? = some (.uint old)) (rest : List UInt8) :
    matchvLoop (37 :: 117 :: fmt) first false mustMatch args (numeral ++ c :: rest) =
      matchvLoop fmt false false (mustMatch || !first)
        ⟨args.cells.set args.next (.uint (UInt32.ofNat (Decimal.value numeral))),
          args.next + 1⟩ (c :: rest) := by
  have read := matchUint_numeral digits nonempty stop rest
  obtain ⟨d, more, rfl⟩ := List.exists_cons_of_ne_nil nonempty
  have notEol := not_eol_of_digit (digits d List.mem_cons_self)
  rw [List.cons_append, matchvLoop_conversion notEol fmt first mustMatch cell, ← List.cons_append,
    Prog.bind_of_ok read]
  rfl

end Cs140e.Esp.Text
