import Cs140e.Library.Reading
import Cs140e.Replay.LogText

/-!
# The entries of any log

`log_read_ent` takes a line off the front of a log, whatever blanks and comments
stand behind its value, or reports a parse error.  So every log is a number of
lines, and behind them its end or a text that is no line.
-/

namespace Cs140e.Replay

open Cs140e.Library

/-! ## Lines with blanks and comments -/

/-- A digit in lower or in upper case. -/
def HexDigit (ch : UInt8) (d : Nat) : Prop :=
  d < 16 ∧ (ch = digitByte d ∨ 10 ≤ d ∧ ch = digitByte d - 32)

/-- Blanks and perhaps a comment. -/
def LineTail (tail : List UInt8) : Prop :=
  10 ∉ tail ∧ ∀ c ∈ tail.takeWhile (· ≠ 35), isspace c = true

/-- A line that stands for the entry. -/
def LogEnt.IsLine (ent : LogEnt) (line : List UInt8) : Prop :=
  ∃ ch1 ch0 d1 d0 tail, HexDigit ch1 d1 ∧ HexDigit ch0 d0 ∧ ent.v.toNat = d1 * 16 + d0 ∧
    LineTail tail ∧ line = [ent.sender, 44, 48, 120, ch1, ch0] ++ tail ++ [10]

theorem hexDigit_digitByte {d : Nat} (small : d < 16) : HexDigit (digitByte d) d :=
  ⟨small, .inl rfl⟩

theorem LogEnt.isLine_line (ent : LogEnt) : ent.IsLine ent.line := by
  have bound := ent.v.toNat_lt
  refine ⟨_, _, _, _, [], hexDigit_digitByte (by omega), hexDigit_digitByte (by omega),
    (Nat.div_add_mod' _ _).symm, ⟨List.not_mem_nil, ?_⟩, rfl⟩
  exact fun _ none => absurd none List.not_mem_nil

theorem LogEnt.IsLine.length {ent : LogEnt} {line : List UInt8} (isLine : ent.IsLine line) :
    7 ≤ line.length := by
  obtain ⟨ch1, ch0, d1, d0, tail, _, _, _, _, rfl⟩ := isLine
  simp only [List.length_append, List.length_cons, List.length_nil]
  omega

theorem hex2int_of_hexDigit {ch : UInt8} {d : Nat} (digit : HexDigit ch d) (l : LogT) :
    hex2int ch l = .ok d l := by
  obtain ⟨small, rfl | ⟨letter, rfl⟩⟩ := digit
  · exact hex2int_digitByte small l
  · interval_cases d <;> rfl

/-- Every byte is a digit or stops `hex2int`. -/
theorem hex2int_cases (ch : UInt8) (l : LogT) :
    (∃ d, HexDigit ch d) ∨ ∃ message, hex2int ch l = .error (.panic message) l := by
  have own : ch = UInt8.ofNat ch.toNat := UInt8.ofNat_toNat.symm
  by_cases decimal : 48 ≤ ch ∧ ch ≤ 57
  · have low : 48 ≤ ch.toNat := UInt8.le_iff_toNat_le.mp decimal.1
    have high : ch.toNat ≤ 57 := UInt8.le_iff_toNat_le.mp decimal.2
    refine .inl ⟨ch.toNat - 48, by omega, .inl ?_⟩
    rw [own]
    interval_cases ch.toNat <;> rfl
  by_cases upper : 65 ≤ ch ∧ ch ≤ 70
  · have low : 65 ≤ ch.toNat := UInt8.le_iff_toNat_le.mp upper.1
    have high : ch.toNat ≤ 70 := UInt8.le_iff_toNat_le.mp upper.2
    refine .inl ⟨ch.toNat - 55, by omega, .inr ⟨by omega, ?_⟩⟩
    rw [own]
    interval_cases ch.toNat <;> rfl
  by_cases lower : 97 ≤ ch ∧ ch ≤ 102
  · have low : 97 ≤ ch.toNat := UInt8.le_iff_toNat_le.mp lower.1
    have high : ch.toNat ≤ 102 := UInt8.le_iff_toNat_le.mp lower.2
    refine .inl ⟨ch.toNat - 87, by omega, .inl ?_⟩
    rw [own]
    interval_cases ch.toNat <;> rfl
  · refine .inr ⟨"invalid char '%x', expected hex!\n", ?_⟩
    rw [hex2int, if_neg decimal, if_neg upper, if_neg lower]
    rfl

/-! ## Reading a line -/

section

variable {content text : List UInt8} {l : LogT}

theorem logGetc_reading (here : At content l text) :
    Reading (At content) (fun c left => text = c :: left) False (logGetc l) := by
  cases text with
  | nil =>
      have ended : decide (l.off < l.nbytes) = false := by
        have off := here.off_eq
        rw [List.length_nil] at off
        rw [decide_eq_false_iff_not, UInt32.lt_iff_toNat_lt, here.nbytes_eq]
        omega
      rw [logGetc, Prog.bind_of_ok (Prog.get_apply l), ended,
        Prog.bind_of_error (Prog.assertThat_false _ l)]
      exact .reported (fun c left none => List.cons_ne_nil c left none.symm) not_false
  | cons c text =>
      obtain ⟨after, ran, there⟩ := here.logGetc
      rw [ran]
      refine .returned there rfl (fun other left same => ?_) not_false
      injection same with first rest
      exact ⟨first.symm, rest.symm⟩

theorem expTok_reading (exp : UInt8) (here : At content l text) :
    Reading (At content) (fun _ left => text = exp :: left) False (expTok exp l) := by
  have compared := (logGetc_reading here).bind fun got left after _ there =>
    Reading.check there (exp ≠ got) "value mismatch, expected '%c', have '%c' (%d)\n"
  refine compared.of_iff (fun _ left => ?_) (by simp)
  simp only [not_not]
  constructor
  · rintro ⟨got, _, split, rfl, rfl⟩
    exact split
  · exact fun split => ⟨exp, left, split, rfl, rfl⟩

theorem hex2int_reading (ch : UInt8) (here : At content l text) :
    Reading (At content) (fun d left => HexDigit ch d ∧ left = text) False (hex2int ch l) := by
  by_cases hex : ∃ d, HexDigit ch d
  · obtain ⟨d, digit⟩ := hex
    rw [hex2int_of_hexDigit digit]
    refine .returned here ⟨digit, rfl⟩ (fun other left both => ?_) not_false
    have same := (hex2int_of_hexDigit both.1 l).symm.trans (hex2int_of_hexDigit digit l)
    injection same with same
    exact ⟨same, both.2⟩
  · obtain ⟨message, stopped⟩ := (hex2int_cases ch l).resolve_left hex
    rw [stopped]
    exact .reported (fun d _ both => hex ⟨d, both.1⟩) not_false

theorem logGetHex_reading (here : At content l text) :
    Reading (At content) (fun v left => ∃ ch1 ch0 d1 d0, HexDigit ch1 d1 ∧ HexDigit ch0 d0 ∧
      v.toNat = d1 * 16 + d0 ∧ text = 48 :: 120 :: ch1 :: ch0 :: left) False (logGetHex l) := by
  have parts := (expTok_reading 48 here).bind fun _ _ _ _ here =>
    (expTok_reading 120 here).bind fun _ _ _ _ here =>
    (logGetc_reading here).bind fun ch1 _ _ _ here =>
    (logGetc_reading here).bind fun ch0 _ _ _ here =>
    (hex2int_reading ch1 here).bind fun d1 _ _ _ here =>
    (hex2int_reading ch0 here).bind fun d0 _ _ _ here =>
    (Reading.assertThat here (d1 * 16 + d0 ≤ 255) "v <= 255").bind fun _ _ _ _ here =>
    Reading.pure here (UInt8.ofNat (d1 * 16 + d0))
  refine parts.of_iff (fun v left => ?_) (by simp)
  constructor
  · rintro ⟨_, _, rfl, _, _, rfl, ch1, _, rfl, ch0, _, rfl, d1, _, ⟨digit1, rfl⟩, d0, _,
      ⟨digit0, rfl⟩, _, _, ⟨_, rfl⟩, rfl, rfl⟩
    have small1 := digit1.1
    have small0 := digit0.1
    refine ⟨ch1, ch0, d1, d0, digit1, digit0, ?_, rfl⟩
    rw [UInt8.toNat_ofNat', Nat.mod_eq_of_lt (by omega)]
  · rintro ⟨ch1, ch0, d1, d0, digit1, digit0, value, rfl⟩
    have bound := v.toNat_lt
    have small : decide (d1 * 16 + d0 ≤ 255) = true := by
      rw [decide_eq_true_iff]
      omega
    have named : v = UInt8.ofNat (d1 * 16 + d0) := by rw [← value, UInt8.ofNat_toNat]
    exact ⟨(), _, rfl, (), _, rfl, ch1, _, rfl, ch0, _, rfl, d1, _, ⟨digit1, rfl⟩, d0, _,
      ⟨digit0, rfl⟩, (), _, ⟨small, rfl⟩, named, rfl⟩

namespace PrettyPrint

/-- What `eat_line` accepts in front of the newline. -/
def Eaten (inCommentP : Bool) (tail : List UInt8) : Prop :=
  10 ∉ tail ∧ (inCommentP = false → ∀ c ∈ tail.takeWhile (· ≠ 35), isspace c = true)

theorem eaten_nil (inCommentP : Bool) : Eaten inCommentP [] :=
  ⟨List.not_mem_nil, fun _ _ none => absurd none List.not_mem_nil⟩

theorem eaten_cons {inCommentP : Bool} {c : UInt8} {tail : List UInt8} :
    Eaten inCommentP (c :: tail) ↔ c ≠ 10 ∧
      ¬ (!(inCommentP || c == 35) && !isspace c) = true ∧ Eaten (inCommentP || c == 35) tail := by
  have outside : 10 ∉ c :: tail ↔ c ≠ 10 ∧ 10 ∉ tail := by
    rw [List.mem_cons, not_or, ne_comm]
  rw [Eaten, Eaten, outside]
  by_cases comment : c = 35
  · simp [comment]
  · cases inCommentP <;> simp [comment]
    tauto

/-- Up to the newline everything is a blank or belongs to a comment. -/
theorem eatLoop_reading {fuel : Nat} (enough : text.length < fuel) (inCommentP : Bool)
    (here : At content l text) :
    Reading (At content) (fun _ left => ∃ tail, Eaten inCommentP tail ∧ text = tail ++ 10 :: left)
      False (eatLoop fuel inCommentP l) := by
  induction text generalizing fuel inCommentP l with
  | nil =>
      obtain ⟨less, rfl⟩ : ∃ less, fuel = less + 1 := ⟨fuel - 1, by omega⟩
      obtain ⟨message, after, stopped⟩ :=
        (logGetc_reading here).reports (fun c left none => by cases none) not_false
      rw [eatLoop, Prog.bind_of_error stopped]
      refine .reported ?_ not_false
      rintro _ left ⟨tail, _, split⟩
      exact absurd split.symm (List.append_ne_nil_of_right_ne_nil tail (List.cons_ne_nil 10 left))
  | cons c text ih =>
      obtain ⟨less, rfl⟩ : ∃ less, fuel = less + 1 := ⟨fuel - 1, by omega⟩
      obtain ⟨after, ran, there⟩ := here.logGetc
      rw [eatLoop, Prog.bind_of_ok ran]
      by_cases newline : c = 10
      · rw [if_pos newline, newline]
        refine .returned there ⟨[], eaten_nil inCommentP, rfl⟩ ?_ not_false
        rintro _ left ⟨tail, eaten, split⟩
        cases tail with
        | nil => injection split with _ same; exact ⟨rfl, same.symm⟩
        | cons t tail =>
            injection split with same _
            exact absurd same.symm (eaten_cons.mp eaten).1
      · rw [if_neg newline]
        have loop := ih (Nat.lt_of_succ_lt_succ enough) (inCommentP || c == 35) there
        refine (Reading.checkThen _ _ fun _ => loop).of_iff (fun _ left => ?_) (by simp)
        constructor
        · rintro ⟨allowed, tail, eaten, rfl⟩
          exact ⟨c :: tail, eaten_cons.mpr ⟨newline, allowed, eaten⟩, rfl⟩
        · rintro ⟨tail, eaten, split⟩
          cases tail with
          | nil => injection split with same _; exact absurd same newline
          | cons t tail =>
              injection split with same split
              subst same
              obtain ⟨_, allowed, eaten⟩ := eaten_cons.mp eaten
              exact ⟨allowed, tail, eaten, split⟩

theorem eatLine_reading (here : At content l text) :
    Reading (At content) (fun _ left => ∃ tail, LineTail tail ∧ text = tail ++ 10 :: left)
      False (eatLine l) := by
  have enough : text.length < l.nbytes.toNat + 1 := by
    have off := here.off_eq
    have size := here.nbytes_eq
    omega
  rw [eatLine, Prog.bind_of_ok (Prog.get_apply l)]
  refine .of_iff (.bind (eatLoop_reading enough false here) fun _ left _ _ there =>
    Reading.modify (fun l => { l with lineno := l.lineno + 1 })
      (At.mk there.nbytes_eq there.held there.off_eq there.unread)) (fun _ left => ?_) (by simp)
  constructor
  · rintro ⟨_, _, ⟨tail, eaten, rfl⟩, rfl⟩
    exact ⟨tail, ⟨eaten.1, eaten.2 rfl⟩, rfl⟩
  · rintro ⟨tail, lineTail, rfl⟩
    exact ⟨(), left, ⟨tail, ⟨lineTail.1, fun _ => lineTail.2⟩, rfl⟩, rfl⟩

/-- In front of a text `log_read_ent` takes a line. -/
theorem logReadEnt_reading (here : At content l text) (more : text ≠ []) :
    Reading (At content) (fun result left => ∃ ent line, ent.IsLine line ∧ result = some ent ∧
      text = line ++ left) False (logReadEnt l) := by
  have unended : logIsEol l = .ok false l := by
    rw [here.logIsEol, List.isEmpty_eq_false_iff.mpr more]
  have parts := (logGetc_reading here).bind fun op _ _ _ here =>
    (expTok_reading 44 here).bind fun _ _ _ _ here =>
    (logGetHex_reading here).bind fun v _ _ _ here =>
    (eatLine_reading here).bind fun _ _ _ _ here => Reading.pure here (some (LogEnt.mk op v))
  rw [logReadEnt, Prog.bind_of_ok unended, if_neg Bool.false_ne_true]
  refine parts.of_iff (fun result left => ?_) (by simp)
  constructor
  · rintro ⟨op, _, rfl, _, _, rfl, v, _, ⟨ch1, ch0, d1, d0, digit1, digit0, value, rfl⟩, _, _,
      ⟨tail, lineTail, rfl⟩, rfl, rfl⟩
    refine ⟨⟨op, v⟩, _, ⟨ch1, ch0, d1, d0, tail, digit1, digit0, value, lineTail, rfl⟩, rfl, ?_⟩
    simp
  · rintro ⟨⟨op, v⟩, _, ⟨ch1, ch0, d1, d0, tail, digit1, digit0, value, lineTail, rfl⟩, rfl, rfl⟩
    refine ⟨op, _, rfl, (), _, rfl, v, _, ⟨ch1, ch0, d1, d0, digit1, digit0, value, rfl⟩, (), left,
      ⟨tail, lineTail, ?_⟩, rfl, rfl⟩
    simp

end PrettyPrint

end

/-! ## Logs -/

/-- The text begins with the lines of these entries and ends there if it is `complete`;
otherwise it goes on without another line. -/
inductive Lines : List UInt8 → List LogEnt → Bool → Prop where
  | ended : Lines [] [] true
  | broken {text : List UInt8} (more : text ≠ [])
      (none : ∀ ent line left, LogEnt.IsLine ent line → text ≠ line ++ left) : Lines text [] false
  | line {ent : LogEnt} {line text : List UInt8} {ents : List LogEnt} {complete : Bool}
      (isLine : ent.IsLine line) (rest : Lines text ents complete) :
      Lines (line ++ text) (ent :: ents) complete

theorem exists_lines (text : List UInt8) : ∃ ents complete, Lines text ents complete := by
  induction size : text.length using Nat.strong_induction_on generalizing text with
  | _ size' ih =>
      by_cases none : text = []
      · exact ⟨[], true, none ▸ .ended⟩
      by_cases some : ∃ ent line left, LogEnt.IsLine ent line ∧ text = line ++ left
      · obtain ⟨ent, line, left, isLine, rfl⟩ := some
        have long := isLine.length
        rw [List.length_append] at size
        obtain ⟨ents, complete, rest⟩ := ih left.length (by omega) left rfl
        exact ⟨ent :: ents, complete, .line isLine rest⟩
      · exact ⟨[], false, .broken none fun ent line left isLine split =>
          some ⟨ent, line, left, isLine, split⟩⟩

theorem Lines.length {text : List UInt8} {ents : List LogEnt} {complete : Bool}
    (lines : Lines text ents complete) : 7 * ents.length ≤ text.length := by
  induction lines with
  | ended => exact Nat.le_refl 0
  | broken => exact Nat.zero_le _
  | line isLine rest ih =>
      have long := isLine.length
      rw [List.length_cons, List.length_append]
      omega

theorem lines_logText (ents : List LogEnt) : Lines (logText ents) ents true := by
  induction ents with
  | nil => exact .ended
  | cons ent ents ih =>
      rw [logText_cons]
      exact .line ent.isLine_line ih

/-- These entries are unread, and perhaps a text behind them that is no line. -/
def Unread (content : List UInt8) (complete : Bool) (l : LogT) (ents : List LogEnt) : Prop :=
  ∃ text, At content l text ∧ Lines text ents complete

namespace Unread

variable {content : List UInt8} {complete : Bool} {l : LogT} {ent : LogEnt} {ents : List LogEnt}

theorem length_le (here : Unread content complete l ents) : 7 * ents.length ≤ l.nbytes.toNat := by
  obtain ⟨text, place, lines⟩ := here
  have short := lines.length
  have off := place.off_eq
  have size := place.nbytes_eq
  omega

theorem logIsEol_end (here : Unread content true l []) : logIsEol l = .ok true l := by
  obtain ⟨text, place, lines⟩ := here
  cases lines with
  | ended => exact place.logIsEol_end

theorem logIsEol_more (here : Unread content complete l ents)
    (more : ¬ (ents = [] ∧ complete = true)) : logIsEol l = .ok false l := by
  obtain ⟨text, place, lines⟩ := here
  rw [place.logIsEol]
  cases lines with
  | ended => exact absurd ⟨rfl, rfl⟩ more
  | broken some => rw [List.isEmpty_eq_false_iff.mpr some]
  | line isLine =>
      obtain ⟨_, _, _, _, _, _, _, _, _, rfl⟩ := isLine
      rfl

theorem logPeek (here : Unread content complete l ents)
    (more : ¬ (ents = [] ∧ complete = true)) :
    ∃ op, Replay.logPeek l = .ok op l ∧ ∀ ent ∈ ents.head?, op = ent.sender := by
  obtain ⟨text, place, lines⟩ := here
  cases lines with
  | ended => exact absurd ⟨rfl, rfl⟩ more
  | broken some =>
      obtain ⟨c, rest, rfl⟩ := List.exists_cons_of_ne_nil some
      exact ⟨c, place.logPeek, fun ent none => by cases none⟩
  | line isLine =>
      obtain ⟨_, _, _, _, _, _, _, _, _, rfl⟩ := isLine
      refine ⟨_, At.logPeek place, fun ent same => ?_⟩
      cases same
      rfl

theorem logReadEnt_end (here : Unread content true l []) :
    PrettyPrint.logReadEnt l = .ok none l := by
  rw [PrettyPrint.logReadEnt, Prog.bind_of_ok here.logIsEol_end, if_pos rfl]
  rfl

theorem logReadEnt_broken (here : Unread content false l []) :
    ∃ message after, PrettyPrint.logReadEnt l = .error (.panic message) after := by
  obtain ⟨text, place, lines⟩ := here
  cases lines with
  | broken more none =>
      refine (PrettyPrint.logReadEnt_reading place more).reports ?_ not_false
      rintro result left ⟨ent, line, isLine, _, split⟩
      exact none ent line left isLine split

theorem logReadEnt (here : Unread content complete l (ent :: ents)) :
    ∃ after, PrettyPrint.logReadEnt l = .ok (some ent) after ∧
      Unread content complete after ents := by
  obtain ⟨_, place, lines⟩ := here
  cases lines with
  | @line _ line text _ _ isLine rest =>
      have more : line ++ text ≠ [] := by
        have long := isLine.length
        exact List.append_ne_nil_of_left_ne_nil (List.length_pos_iff.mp (by omega)) text
      obtain ⟨after, ran, there⟩ :=
        (PrettyPrint.logReadEnt_reading place more).takes ⟨ent, line, isLine, rfl, rfl⟩
      exact ⟨after, ran, text, there, rest⟩

end Unread

end Cs140e.Replay
