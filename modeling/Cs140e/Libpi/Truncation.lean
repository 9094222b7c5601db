import Mathlib.Data.List.TakeWhile
import Cs140e.Libpi.Render

/-!
# What the return value of `snprintk` tells

The comment in `va-printk.c` promises that the return value tells a truncated
text from one that was stored as a whole.  `va_printk` counts the NUL and only
what it has stored: the value is as promised if and only if the text does not
fit.
-/

namespace Cs140e.Libpi.Printk

open Cs140e.Library
open Cs140e.Library.Buffer

/-- `snprintk`; an array of `n` bytes is small enough for the `int` of `va_printk`. -/
def snprintk (n : Nat) (fmt : List UInt8) (args : List Arg) : Prog (Buffer UInt8) Nat := do
  let sz ← vaPrintk n fmt args
  pure sz

/-! ## Everything `va_printk` supports -/

/-- The width that some digits spell in an `unsigned`. -/
def widthOf (digits : List UInt8) : UInt32 :=
  digits.foldl (fun width c => width * 10 + c.toUInt32 - 48) 0

/-- A part of a format with its argument, the width spelled in any way. -/
inductive Directive where
  | char (c : UInt8) (plain : c ≠ 0 ∧ c ≠ 37)
  | percent
  | string (digits : List UInt8) (spelled : ∀ c ∈ digits, isdigit c = true)
      (small : widthOf digits < 32) (text beyond : List UInt8) (noNul : 0 ∉ text)
  | number (conv : Conv) (digits : List UInt8) (spelled : ∀ c ∈ digits, isdigit c = true)
      (small : widthOf digits < 32) (val : Int32)

namespace Directive

def format : Directive → List UInt8
  | char c _ => [c]
  | percent => [37, 37]
  | string digits _ _ _ _ _ => 37 :: digits ++ [115]
  | number conv digits _ _ _ => 37 :: digits ++ [conv.letter]

def args : Directive → List Arg
  | char _ _ | percent => []
  | string _ _ _ text beyond _ => [.str (text ++ 0 :: beyond)]
  | number _ _ _ _ val => [.int val]

/-- The character 0 ends the field of a `%c`. -/
def render : Directive → List UInt8
  | char c _ => [c]
  | percent => [37]
  | string _ _ _ text _ _ => text
  | number conv digits _ _ val =>
      (rightJustified (widthOf digits).toNat (conv.body val)).takeWhile (· ≠ 0)

end Directive

/-! ## Rounds -/

variable {old : Buffer UInt8}

theorem parseWidth_digits {digits : List UInt8} (spelled : ∀ c ∈ digits, isdigit c = true)
    {letter : UInt8} (other : isdigit letter = false) (width : UInt32) (fmt : List UInt8)
    (state : Buffer UInt8) :
    parseWidth (digits ++ letter :: fmt) width state =
      .ok (digits.foldl (fun width c => width * 10 + c.toUInt32 - 48) width, letter :: fmt)
        state := by
  induction digits generalizing width with
  | nil =>
      rw [List.nil_append, parseWidth, other]
      rfl
  | cons c digits ih =>
      rw [List.cons_append, parseWidth, spelled c List.mem_cons_self, if_pos rfl,
        ih (fun d mem => spelled d (List.mem_cons_of_mem c mem))]
      rfl

/-- The digits of a width are not taken for `%%`. -/
theorem charAt_digits {digits : List UInt8} (spelled : ∀ c ∈ digits, isdigit c = true)
    {letter : UInt8} (other : letter ≠ 37) (fmt : List UInt8) (state : Buffer UInt8) :
    ∃ c, charAt (digits ++ letter :: fmt) state = .ok c state ∧ c ≠ 37 := by
  cases digits with
  | nil => exact ⟨letter, rfl, other⟩
  | cons c digits =>
      refine ⟨c, rfl, ?_⟩
      rintro rfl
      exact absurd (spelled 37 List.mem_cons_self) (by decide)

/-- A text with a NUL behind it is a string and what lies behind that. -/
theorem exists_string (text : List UInt8) :
    ∃ beyond, text ++ [0] = text.takeWhile (· ≠ 0) ++ 0 :: beyond := by
  induction text with
  | nil => exact ⟨[], rfl⟩
  | cons c text ih =>
      obtain ⟨beyond, split⟩ := ih
      by_cases named : c = 0
      · subst named
        exact ⟨text ++ [0], rfl⟩
      · refine ⟨beyond, ?_⟩
        rw [List.cons_append, split, List.takeWhile_cons_of_pos (by simpa using named)]
        rfl

theorem nul_not_mem_takeWhile (text : List UInt8) : 0 ∉ text.takeWhile (· ≠ 0) := by
  intro mem
  have named := List.mem_takeWhile_imp mem
  exact absurd named (by decide)

/-- A conversion yields the string of its field. -/
theorem convert_number_string (conv : Conv) {width : Nat} (small : width < 32) (val : Int32)
    (args : List Arg) (state : Buffer UInt8) :
    ∃ beyond : Buffer UInt8, convert conv.letter width (.int val :: args) state =
      .ok (((rightJustified width (conv.body val)).takeWhile (· ≠ 0)).map some ++ some 0 :: beyond,
        args) state := by
  obtain ⟨beyond, split⟩ := exists_string (rightJustified width (conv.body val))
  refine ⟨beyond.map some ++ (uninit 128).drop (rightJustified width (conv.body val) ++ [0]).length,
    ?_⟩
  rw [convert_number conv small, written]
  rw [split, List.map_append, List.map_cons, List.append_assoc, List.cons_append]

theorem letter_not_digit (conv : Conv) : isdigit conv.letter = false ∧ conv.letter ≠ 37 := by
  cases conv with
  | _ => exact ⟨rfl, by decide⟩

/-- A round of the loop prints a directive, or as much of it as fits. -/
theorem vaPrintkLoop_directive (directive : Directive) {e : Nat} (fuel : Nat)
    (fits : e < old.length) {out : List UInt8} (room : out.length < e) (fmt : List UInt8)
    (args : List Arg) :
    vaPrintkLoop e (fuel + 1) (directive.format ++ fmt) (directive.args ++ args) out.length
        (written old out) =
      vaPrintkLoop e fuel fmt args ((out ++ directive.render).take e).length
        (written old ((out ++ directive.render).take e)) := by
  cases directive with
  | char c plain => exact vaPrintkLoop_item (.char c plain) fits room fmt args
  | percent => exact vaPrintkLoop_item .percent fits room fmt args
  | string digits spelled small text beyond noNul =>
      obtain ⟨c, second, other⟩ := charAt_digits spelled (by decide : (115 : UInt8) ≠ 37) fmt
        (written old out)
      have parsed := parseWidth_digits spelled (rfl : isdigit 115 = false) 0 fmt (written old out)
      have taken : convert 115 (widthOf digits).toNat (.str (text ++ 0 :: beyond) :: args)
          (written old out) =
          .ok (text.map some ++ some 0 :: beyond.map some, args) (written old out) := by
        rw [← List.map_cons, ← List.map_append]
        rfl
      rw [Directive.format, List.append_assoc]
      exact vaPrintkLoop_conversion fits room rfl second other parsed small taken noNul
  | number conv digits spelled small val =>
      obtain ⟨notDigit, notPercent⟩ := letter_not_digit conv
      obtain ⟨c, second, other⟩ := charAt_digits spelled notPercent fmt (written old out)
      have parsed := parseWidth_digits spelled notDigit 0 fmt (written old out)
      have below : (widthOf digits).toNat < 32 := UInt32.lt_iff_toNat_lt.mp small
      obtain ⟨beyond, taken⟩ := convert_number_string conv below val args (written old out)
      rw [Directive.format, List.append_assoc]
      exact vaPrintkLoop_conversion fits room rfl second other parsed small taken
        (nul_not_mem_takeWhile _)

def Directive.piece (directive : Directive) : Piece where
  format := directive.format
  args := directive.args
  render := directive.render
  nonempty := by
    cases directive with
    | _ => exact Nat.succ_pos _
  round fuel fits _ room fmt rest := vaPrintkLoop_directive directive fuel fits room fmt rest

/-! ## The return value -/

namespace Directive

def formats (directives : List Directive) : List UInt8 := directives.flatMap format

def allArgs (directives : List Directive) : List Arg := directives.flatMap args

/-- The full rendering, without the NUL. -/
def rendering (directives : List Directive) : List UInt8 := directives.flatMap render

end Directive

open Directive

/-- What the comment of `va-printk.c` says of the value returned for a text. -/
structure TellsTruncation (n result : Nat) (text : List UInt8) : Prop where
  truncated : n ≤ result ↔ n - 1 < text.length
  stored : text.length ≤ n - 1 → result = text.length

theorem snprintk_returns {n : Nat} (positive : 1 ≤ n) {buf : Buffer UInt8} (size : buf.length = n)
    (directives : List Directive) (beyond : List UInt8) (args : List Arg) :
    ∃ after, snprintk n (formats directives ++ 0 :: beyond) (allArgs directives ++ args) buf =
      .ok (min (n - 1) (rendering directives).length + 1) after := by
  have printed := vaPrintk_pieces positive size (directives.map Directive.piece) beyond args
  simp only [List.flatMap_map, List.length_take] at printed
  exact ⟨_, printed⟩

theorem tellsTruncation_iff {n : Nat} (positive : 1 ≤ n) (text : List UInt8) :
    TellsTruncation n (min (n - 1) text.length + 1) text ↔ n ≤ text.length := by
  constructor
  · rintro ⟨-, stored⟩
    by_contra fits
    have same := stored (by omega)
    omega
  · intro long
    constructor
    · omega
    · omega

/-- The value returned is as the comment says if and only if the full rendering
does not fit. -/
theorem snprintk_tells_truncation_iff {n : Nat} (positive : 1 ≤ n) {buf : Buffer UInt8}
    (size : buf.length = n) (directives : List Directive) (beyond : List UInt8)
    (args : List Arg) :
    (∃ result after,
        snprintk n (formats directives ++ 0 :: beyond) (allArgs directives ++ args) buf =
          .ok result after ∧ TellsTruncation n result (rendering directives)) ↔
      n ≤ (rendering directives).length := by
  obtain ⟨last, ran⟩ := snprintk_returns positive size directives beyond args
  rw [← tellsTruncation_iff positive, ran]
  constructor
  · rintro ⟨result, after, same, tells⟩
    cases same
    exact tells
  · exact fun tells => ⟨_, last, rfl, tells⟩

/-- The format `%05d%%` with a number of four digits. -/
def longNumber : List Directive :=
  [.number .d [48, 53] (by simp [isdigit]) (by decide) 1234, .percent]

theorem snprintk_tells_truncation_iff_of_longNumber :
    ∃ result after, snprintk 6 (formats longNumber ++ 0 :: []) (allArgs longNumber ++ [])
        (uninit 6) = .ok result after ∧ TellsTruncation 6 result (rendering longNumber) :=
  (snprintk_tells_truncation_iff (by decide) List.length_replicate longNumber [] []).mpr (by decide)

def hi : List Directive := [.char 104 (by decide), .char 105 (by decide)]

/-- `snprintk(buf, 3, "hi")` returns 3, as it does for a text that is truncated. -/
theorem snprintk_misses_exact_fit :
    ¬ ∀ (n : Nat) (buf : Buffer UInt8) (directives : List Directive) (beyond : List UInt8)
      (args : List Arg), 1 ≤ n → buf.length = n → ∃ result after,
        snprintk n (formats directives ++ 0 :: beyond) (allArgs directives ++ args) buf =
          .ok result after ∧ TellsTruncation n result (rendering directives) := by
  intro all
  obtain ⟨result, after, ran, tells⟩ := all 3 (uninit 3) hi [] [] (by decide) rfl
  have three : snprintk 3 (formats hi ++ 0 :: []) (allArgs hi ++ []) (uninit 3) =
      .ok 3 [some 104, some 105, some 0] := rfl
  rw [three] at ran
  cases ran
  exact absurd (tells.stored (by decide)) (by decide)

end Cs140e.Libpi.Printk
