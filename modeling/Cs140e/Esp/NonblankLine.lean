import Cs140e.Esp.Lines
import Cs140e.Esp.ParseOnText

/-!
# Taking one line

`get_nonblank_line` tries to match the end of the line in front of every
byte.  Blanks before an end of line go with it, and blanks before anything
else are given back, so what is stored is the line without the blanks at its
ends.  A store outside of the buffer would be undefined.
-/

namespace Cs140e.Esp

open Cs140e.Library
open Text (OnLine strip trim)

theorem Text.strip_eq_nil {line : List UInt8} (blank : ∀ c ∈ line, isSpaceCh c = true) :
    strip line = [] :=
  List.filter_eq_nil_iff.mpr fun c mem => by rw [blank c mem]; exact Bool.false_ne_true

theorem Text.strip_ne_nil {line : List UInt8} (some : 1 ≤ (trim line).length) :
    strip line ≠ [] := fun none => by
  rw [trim, trimEnd_blank (by rw [strip_dropBlanks]; exact none)] at some
  exact Nat.not_succ_le_zero 0 some

/-- `get_nonblank_line` takes one line, whatever its length and however it
arrives: a line of blanks is dropped, a line that fits without the blanks at its
two ends is stored without them and with a NUL, any other line is a panic. -/
theorem get_nonblank_line_takes_line {input line rest buf : List UInt8} {e : UInt8} {nbytes : Nat}
    {l : Lex LexSimple} (here : At input (line ++ e :: rest) l) (noEol : OnLine line)
    (eol : isEolCh e = true) (positive : 1 ≤ nbytes) (room : nbytes ≤ buf.length) :
    ((∀ c ∈ line, isSpaceCh c = true) →
      ∃ after, getNonblankLine buf nbytes l = .ok (0, buf) after ∧ AtEol input rest after) ∧
    (1 ≤ (trim line).length → (trim line).length < nbytes →
      ∃ stored after, getNonblankLine buf nbytes l = .ok ((trim line).length, stored) after ∧
        stored = trim line ++ 0 :: buf.drop ((trim line).length + 1) ∧
        stored.length = buf.length ∧ stored.drop nbytes = buf.drop nbytes ∧
        AtEol input rest after) ∧
    (nbytes ≤ (trim line).length →
      ∃ after, getNonblankLine buf nbytes l =
        .error (.panic "buffer too small nybtes=%d\n") after) := by
  have agree := here.getNonblankLine buf nbytes
  refine ⟨fun blank => ?_, fun some fits => ?_, fun long => ?_⟩
  · rw [Text.getNonblankLine_blank buf nbytes eol (Text.strip_eq_nil blank)] at agree
    exact agree.right_of_ok
  · rw [Text.getNonblankLine_line eol noEol (Text.strip_ne_nil some) fits (by omega)] at agree
    obtain ⟨after, ran, there⟩ := agree.right_of_ok
    refine ⟨_, after, ran, rfl, ?_, ?_, there⟩
    · rw [List.length_append, List.length_cons, List.length_drop]
      omega
    · obtain ⟨more, nbytesEq⟩ := Nat.exists_eq_add_of_lt fits
      rw [nbytesEq, Nat.add_assoc, ← List.drop_drop, List.drop_left, List.drop_succ_cons,
        List.drop_drop, Nat.add_right_comm]
      rfl
  · have full : ∃ after, Text.getNonblankLine buf nbytes (line ++ e :: rest) =
        .error (.panic "buffer too small nybtes=%d\n") after :=
      Text.getNonblankLine_full eol noEol (Text.strip_ne_nil (Nat.le_trans positive long)) long room
    obtain ⟨after, stopped⟩ := full
    rw [stopped] at agree
    exact agree.right_of_error

/-- A line with blanks in all places, cut inside of the blanks at its end. -/
def paddedLine : List Poll :=
  [.data ⟨ascii "  a b ", by decide, by decide⟩, .quiet,
    .data ⟨ascii "\t\r\n", by decide, by decide⟩]

theorem get_nonblank_line_takes_line_of_padded :
    ∃ after, getNonblankLine [1, 1, 1, 1, 1] 4 ⟨LexSimple.init, paddedLine⟩ =
        .ok (3, ascii "a b" ++ [0, 1]) after ∧
      AtEol (arriving paddedLine) [10] after := by
  have here : At (arriving paddedLine) (ascii "  a b \t" ++ 13 :: [10])
      ⟨LexSimple.init, paddedLine⟩ := At.init (h := paddedLine) (by decide)
  have room : 4 ≤ ([1, 1, 1, 1, 1] : List UInt8).length := by decide
  obtain ⟨stored, after, ran, same, _, _, there⟩ :=
    (get_nonblank_line_takes_line here (by decide) rfl (by decide) room).2.1 (by decide)
      (by decide)
  refine ⟨after, ?_, there⟩
  rw [ran, same]
  rfl

end Cs140e.Esp
