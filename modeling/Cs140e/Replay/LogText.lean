import Mathlib.Data.List.TakeWhile
import Mathlib.Tactic.IntervalCases
import Cs140e.Replay.Log

/-!
# The lines of a log

Every byte is logged as a line of seven characters, and the strict reader takes
such a line as a whole.
-/

namespace Cs140e.Replay

open Cs140e.Library

/-! ## Lines -/

/-- The line of an entry. -/
def LogEnt.line (ent : LogEnt) : List UInt8 :=
  [ent.sender, 44, 48, 120, digitByte (ent.v.toNat / 16), digitByte (ent.v.toNat % 16), 10]

def logText (ents : List LogEnt) : List UInt8 := ents.flatMap LogEnt.line

@[simp]
theorem logText_nil : logText [] = [] := rfl

theorem logText_cons (ent : LogEnt) (ents : List LogEnt) :
    logText (ent :: ents) = ent.line ++ logText ents := rfl

theorem length_logText (ents : List LogEnt) : (logText ents).length = 7 * ents.length := by
  induction ents with
  | nil => rfl
  | cons ent ents ih =>
      rw [logText_cons, List.length_append, ih, List.length_cons, LogEnt.line]
      simp only [List.length_cons, List.length_nil]
      omega

theorem hex2_eq (b : UInt8) : hex2 b = [digitByte (b.toNat / 16), digitByte (b.toNat % 16)] := by
  have bound := b.toNat_lt
  rcases Nat.lt_or_ge b.toNat 16 with one | two
  · rw [hex2, numeral_of_lt one, Nat.div_eq_of_lt one, Nat.mod_eq_of_lt one]
    rfl
  · rw [hex2, numeral_of_le (by decide) two, numeral_of_lt (by omega)]
    rfl

/-- `wr_log_byte` writes the line of the entry. -/
theorem wrLogByte_apply (ent : LogEnt) (named : ent.sender ≠ 0) (file : List UInt8) :
    wrLogByte ent.sender ent.v file = .ok () (file ++ ent.line) := by
  have bound := ent.v.toNat_lt
  have buf : [ent.sender] ++ asciiBytes ",0x" ++ hex2 ent.v ++ asciiBytes "\n" = ent.line := by
    rw [hex2_eq]
    rfl
  have whole : ent.line.takeWhile (· ≠ 0) = ent.line := by
    rw [List.takeWhile_eq_self_iff]
    intro c mem
    have high := digitByte_ne_zero (ent.v.toNat / 16) (by omega)
    have low := digitByte_ne_zero (ent.v.toNat % 16) (by omega)
    rw [decide_eq_true_iff]
    simp only [LogEnt.line, List.mem_cons, List.not_mem_nil, or_false] at mem
    rcases mem with rfl | rfl | rfl | rfl | rfl | rfl | rfl
    · exact named
    · decide
    · decide
    · decide
    · exact high
    · exact low
    · decide
  rw [wrLogByte, buf, whole]
  rfl

/-! ## Positions in a log -/

/-- The log holds the content and `text` of it is still unread. -/
structure At (content : List UInt8) (l : LogT) (text : List UInt8) : Prop where
  nbytes_eq : l.nbytes.toNat = content.length
  held : content <+: l.log
  off_eq : l.off.toNat + text.length = content.length
  unread : text <:+ content

namespace At

variable {content text : List UInt8} {l : LogT}

theorem start {log : List UInt8} {nbytes : UInt32} (size : nbytes.toNat = content.length)
    (held : content <+: log) (lineno : UInt32) : At content ⟨log, nbytes, 0, lineno⟩ content where
  nbytes_eq := size
  held := held
  off_eq := Nat.zero_add _
  unread := List.suffix_refl content

theorem logIsEol (here : At content l text) : logIsEol l = .ok text.isEmpty l := by
  have same : (l.off == l.nbytes) = text.isEmpty := by
    rw [Bool.eq_iff_iff, beq_iff_eq, List.isEmpty_iff, ← UInt32.toNat_inj, here.nbytes_eq,
      ← here.off_eq, ← List.length_eq_zero_iff]
    omega
  rw [Replay.logIsEol, Prog.bind_of_ok (Prog.get_apply l), same]
  rfl

theorem logIsEol_end (here : At content l []) : Replay.logIsEol l = .ok true l := here.logIsEol

variable {c : UInt8}

theorem logIsEol_more (here : At content l (c :: text)) : Replay.logIsEol l = .ok false l :=
  here.logIsEol

theorem getElem? (here : At content l (c :: text)) : l.log[l.off.toNat]? = some c := by
  obtain ⟨before, rfl⟩ := here.unread
  obtain ⟨pad, held⟩ := here.held
  have off := here.off_eq
  rw [List.length_append] at off
  rw [← held, List.append_assoc, List.getElem?_append_right (by omega),
    show l.off.toNat - before.length = 0 by omega]
  rfl

theorem inside (here : At content l (c :: text)) : decide (l.off < l.nbytes) = true := by
  have off := here.off_eq
  rw [List.length_cons] at off
  rw [decide_eq_true_iff, UInt32.lt_iff_toNat_lt, here.nbytes_eq]
  omega

theorem advance (here : At content l (c :: text)) :
    At content { l with off := l.off + 1 } text where
  nbytes_eq := here.nbytes_eq
  held := here.held
  off_eq := by
    have off := here.off_eq
    have bound := l.nbytes.toNat_lt
    have size := here.nbytes_eq
    rw [List.length_cons] at off
    have next : (l.off + 1).toNat = l.off.toNat + 1 := by
      rw [UInt32.toNat_add, show (1 : UInt32).toNat = 1 from rfl]
      omega
    dsimp only
    rw [next]
    omega
  unread := (List.suffix_cons c text).trans here.unread

theorem logAt (here : At content l (c :: text)) : logAt l = .ok c l := by
  rw [Replay.logAt, Prog.bind_of_ok (Prog.get_apply l)]
  simp only [here.getElem?]
  rfl

theorem logGetc (here : At content l (c :: text)) :
    ∃ after, logGetc l = .ok c after ∧ At content after text := by
  refine ⟨_, ?_, here.advance⟩
  rw [Replay.logGetc, Prog.bind_of_ok (Prog.get_apply l),
    Prog.bind_of_ok (Prog.assertThat_of _ _ here.inside), Prog.bind_of_ok here.logAt,
    Prog.bind_of_ok (Prog.modify_apply _ _)]
  rfl

theorem logPeek (here : At content l (c :: text)) : logPeek l = .ok c l := by
  rw [Replay.logPeek, Prog.bind_of_ok here.logIsEol_more, Bool.not_false,
    Prog.bind_of_ok (Prog.assertThat_true _ _), here.logAt]

theorem expTok (here : At content l (c :: text)) :
    ∃ after, expTok c l = .ok () after ∧ At content after text := by
  obtain ⟨after, ran, there⟩ := here.logGetc
  refine ⟨after, ?_, there⟩
  rw [Replay.expTok, Prog.bind_of_ok ran, if_neg (not_not_intro rfl)]
  rfl

end At

theorem hex2int_digitByte {d : Nat} (small : d < 16) (l : LogT) :
    hex2int (digitByte d) l = .ok d l := by
  interval_cases d <;> rfl

namespace At

variable {content text : List UInt8} {l : LogT}

theorem logGetHex (b : UInt8)
    (here : At content l
      (48 :: 120 :: digitByte (b.toNat / 16) :: digitByte (b.toNat % 16) :: text)) :
    ∃ after, logGetHex l = .ok b after ∧ At content after text := by
  have bound := b.toNat_lt
  obtain ⟨first, zero, here⟩ := here.expTok
  obtain ⟨second, x, here⟩ := here.expTok
  obtain ⟨third, high, here⟩ := here.logGetc
  obtain ⟨last, low, here⟩ := here.logGetc
  refine ⟨last, ?_, here⟩
  have value : b.toNat / 16 * 16 + b.toNat % 16 = b.toNat := Nat.div_add_mod' _ _
  have small : decide (b.toNat / 16 * 16 + b.toNat % 16 ≤ 255) = true := by
    rw [decide_eq_true_iff]
    omega
  rw [Replay.logGetHex, Prog.bind_of_ok zero, Prog.bind_of_ok x, Prog.bind_of_ok high,
    Prog.bind_of_ok low, Prog.bind_of_ok (hex2int_digitByte (by omega) _),
    Prog.bind_of_ok (hex2int_digitByte (by omega) _),
    Prog.bind_of_ok (Prog.assertThat_of _ _ small), value, UInt8.ofNat_toNat]
  rfl

theorem logReadline (ent : LogEnt) (here : At content l (ent.line ++ text)) :
    ∃ after, LogUtil.logReadline l = .ok (some ent) after ∧ At content after text := by
  have more : Replay.logIsEol l = .ok false l := At.logIsEol_more here
  obtain ⟨first, sender, here⟩ := At.logGetc here
  obtain ⟨second, comma, here⟩ := here.expTok
  obtain ⟨third, value, here⟩ := At.logGetHex ent.v here
  obtain ⟨after, newline, there⟩ := here.expTok
  refine ⟨after, ?_, there⟩
  rw [LogUtil.logReadline, Prog.bind_of_ok more, if_neg Bool.false_ne_true,
    Prog.bind_of_ok sender, Prog.bind_of_ok comma, Prog.bind_of_ok value,
    Prog.bind_of_ok newline]
  rfl

theorem logReadline_end (here : At content l []) : LogUtil.logReadline l = .ok none l := by
  rw [LogUtil.logReadline, Prog.bind_of_ok here.logIsEol_end, if_pos rfl]
  rfl

end At

end Cs140e.Replay
