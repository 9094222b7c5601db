import Mathlib.Tactic.IntervalCases
import Cs140e.Libpi.Emit

/-!
# What `va_printk` prints

A format is a list of items.  The reference rendering of an item is stated
without buffers, and `va_printk` leaves as much of it as fits.
-/

namespace Cs140e.Libpi.Printk

open Cs140e.Library
open Cs140e.Library.Buffer

/-! ## The reference rendering -/

inductive Conv where
  | d
  | u
  | x
  | p
  | b
  | c
  deriving DecidableEq, Repr

namespace Conv

def letter : Conv → UInt8
  | d => 100
  | u => 117
  | x => 120
  | p => 112
  | b => 98
  | c => 99

/-- The field before it is justified. -/
def body (val : Int32) : Conv → List UInt8
  | d => signedNumeral val
  | u => numeral 10 val.toUInt32.toNat
  | x | p => numeral 16 val.toUInt32.toNat
  | b => numeral 2 val.toUInt32.toNat
  | c => [val.toUInt32.toUInt8]

end Conv

/-- A part of a format with its argument; a width of 0 is left out. -/
inductive Item where
  | char (c : UInt8) (plain : c ≠ 0 ∧ c ≠ 37)
  | percent
  | string (text beyond : List UInt8) (noNul : 0 ∉ text)
  | number (conv : Conv) (width : Nat) (val : Int32) (small : width < 32)
      (named : conv = .c → val.toUInt32.toUInt8 ≠ 0)

def widthText (width : Nat) : List UInt8 := if width = 0 then [] else numeral 10 width

namespace Item

def format : Item → List UInt8
  | char c _ => [c]
  | percent => [37, 37]
  | string _ _ _ => [37, 115]
  | number conv width _ _ _ => 37 :: widthText width ++ [conv.letter]

def args : Item → List Arg
  | char _ _ | percent => []
  | string text beyond _ => [.str (text ++ 0 :: beyond)]
  | number _ _ val _ _ => [.int val]

def render : Item → List UInt8
  | char c _ => [c]
  | percent => [37]
  | string text _ _ => text
  | number conv width val _ _ => rightJustified width (conv.body val)

end Item

/-! ## Conversions -/

theorem nul_not_mem_signedNumeral (val : Int32) : 0 ∉ signedNumeral val := by
  have digits := nul_not_mem_numeral (by decide : 1 < 10) (by decide) val.toInt.natAbs
  rw [signedNumeral]
  split
  · rw [List.mem_cons, not_or]
    exact ⟨by decide, digits⟩
  · exact digits

theorem nul_not_mem_body {conv : Conv} {val : Int32}
    (named : conv = .c → val.toUInt32.toUInt8 ≠ 0) : 0 ∉ conv.body val := by
  cases conv with
  | d => exact nul_not_mem_signedNumeral val
  | u => exact nul_not_mem_numeral (by decide) (by decide) _
  | x => exact nul_not_mem_numeral (by decide) (by decide) _
  | p => exact nul_not_mem_numeral (by decide) (by decide) _
  | b => exact nul_not_mem_numeral (by decide) (by decide) _
  | c => exact fun mem => named rfl (List.mem_singleton.mp mem).symm

theorem nul_not_mem_rightJustified {body : List UInt8} (noNul : 0 ∉ body) (width : Nat) :
    0 ∉ rightJustified width body := by
  rw [rightJustified, List.mem_append, not_or]
  refine ⟨fun mem => ?_, noNul⟩
  cases List.eq_of_mem_replicate mem

variable {old : Buffer UInt8}

theorem emitNum_apply {base width : Nat} {signedP : Bool} {val : Int32} {body : List UInt8}
    (digits : Digits (emitDigits base val signedP) body) (small : width < 32) (args : List Arg)
    (state : Buffer UInt8) :
    emitNum base width signedP (.int val :: args) state =
      .ok (written (uninit 128) (rightJustified width body ++ [0]), args) state := by
  have taken : vaInt (.int val :: args) state = .ok (val, args) state := rfl
  rw [emitNum, Prog.bind_of_ok taken]
  dsimp only
  rw [Prog.bind_of_ok (Prog.locally_of_ok (emit_apply digits small) state)]
  rfl

/-- A conversion yields its field with the NUL behind it. -/
theorem convert_number (conv : Conv) {width : Nat} (small : width < 32) (val : Int32)
    (args : List Arg) (state : Buffer UInt8) :
    convert conv.letter width (.int val :: args) state =
      .ok (written (uninit 128) (rightJustified width (conv.body val) ++ [0]), args) state := by
  cases conv with
  | d => exact emitNum_apply (emitDigits_signed val) small args state
  | u => exact emitNum_apply (emitDigits_unsigned val) small args state
  | x => exact emitNum_apply (emitDigits_hex val) small args state
  | p => exact emitNum_apply (emitDigits_hex val) small args state
  | b => exact emitNum_apply (emitDigits_binary val) small args state
  | c => exact emitNum_apply (emitDigits_char val) small args state

/-! ## The format -/

theorem parseWidth_widthText {width : Nat} (small : width < 32) (fmt : List UInt8) :
    parseWidth (widthText width ++ fmt) 0 = parseWidth fmt (UInt32.ofNat width) := by
  interval_cases width <;> rfl

theorem parseWidth_letter (conv : Conv) (width : UInt32) (fmt : List UInt8)
    (state : Buffer UInt8) :
    parseWidth (conv.letter :: fmt) width state = .ok (width, conv.letter :: fmt) state := by
  cases conv with
  | _ => rfl

theorem percent_not_mem_widthText : ∀ width < 32, 37 ∉ widthText width := by decide

/-- The format of a number is not taken for `%%`. -/
theorem charAt_number (conv : Conv) {width : Nat} (small : width < 32) (fmt : List UInt8)
    (state : Buffer UInt8) :
    ∃ c, charAt (widthText width ++ conv.letter :: fmt) state = .ok c state ∧ c ≠ 37 := by
  have digits := percent_not_mem_widthText width small
  cases text : widthText width with
  | nil =>
      refine ⟨conv.letter, rfl, ?_⟩
      cases conv <;> decide
  | cons c digitsLeft =>
      rw [text] at digits
      exact ⟨c, rfl, fun same => digits (same ▸ List.mem_cons_self)⟩

/-! ## Copying -/

theorem copyLoop_apply {e : Nat} (fits : e < old.length) {text : List UInt8} (noNul : 0 ∉ text)
    (beyond : Buffer UInt8) {out : List UInt8} (le : out.length ≤ e) :
    copyLoop e (text.map some ++ some 0 :: beyond) out.length (written old out) =
      .ok ((out ++ text).take e).length (written old ((out ++ text).take e)) := by
  induction text generalizing out with
  | nil =>
      rw [List.append_nil, List.take_of_length_le le, List.map_nil, List.nil_append, copyLoop,
        if_neg (fun both => both.2 rfl)]
      rfl
  | cons c text ih =>
      obtain ⟨named, noNul⟩ := not_or.mp (List.mem_cons.not.mp noNul)
      rw [List.map_cons, List.cons_append, copyLoop]
      rcases Nat.lt_or_eq_of_le le with room | full
      · have rest := @ih noNul (out ++ [c]) (by
          rw [List.length_append, List.length_singleton]
          omega)
        rw [List.length_append, List.append_assoc] at rest
        rw [if_pos ⟨room, Ne.symm named⟩, Prog.bind_of_ok (store_written (by omega) c)]
        exact rest
      · rw [if_neg (fun both => absurd both.1 (by omega)), ← full, List.take_left]
        rfl

/-! ## Rounds -/

/-- A round on a conversion copies the string that it yields. -/
theorem vaPrintkLoop_conversion {e fuel : Nat} (fits : e < old.length) {out : List UInt8}
    (room : out.length < e) {spelled fmt text : List UInt8} {c letter : UInt8} {width : UInt32}
    {columns : Nat} (value : width.toNat = columns)
    {args args' : List Arg} {beyond : Buffer UInt8}
    (second : charAt spelled (written old out) = .ok c (written old out)) (other : c ≠ 37)
    (parsed : parseWidth spelled 0 (written old out) =
      .ok (width, letter :: fmt) (written old out))
    (small : width < 32)
    (converted : convert letter columns args (written old out) =
      .ok (text.map some ++ some 0 :: beyond, args') (written old out))
    (noNul : 0 ∉ text) :
    vaPrintkLoop e (fuel + 1) (37 :: spelled) args out.length (written old out) =
      vaPrintkLoop e fuel fmt args' ((out ++ text).take e).length
        (written old ((out ++ text).take e)) := by
  have first : charAt (37 :: spelled) (written old out) = .ok 37 (written old out) := rfl
  have spec : charAt (letter :: fmt) (written old out) = .ok letter (written old out) := rfl
  rw [vaPrintkLoop, Prog.bind_of_ok first, if_pos ⟨by decide, room⟩, if_neg (not_not_intro rfl),
    List.drop_one, List.tail_cons, Prog.bind_of_ok second, if_neg other, Prog.bind_of_ok parsed]
  dsimp only
  rw [Prog.bind_of_ok (Prog.assertThat_of _ _ (decide_eq_true small)), Prog.bind_of_ok spec, value,
    Prog.bind_of_ok converted]
  dsimp only
  rw [Prog.bind_of_ok (copyLoop_apply fits noNul beyond (Nat.le_of_lt room))]
  rfl

/-- A round of the loop prints one item, or as much of it as fits. -/
theorem vaPrintkLoop_item (item : Item) {e fuel : Nat} (fits : e < old.length) {out : List UInt8}
    (room : out.length < e) (fmt : List UInt8) (args : List Arg) :
    vaPrintkLoop e (fuel + 1) (item.format ++ fmt) (item.args ++ args) out.length
        (written old out) =
      vaPrintkLoop e fuel fmt args ((out ++ item.render).take e).length
        (written old ((out ++ item.render).take e)) := by
  have single : ∀ c : UInt8, (out ++ [c]).take e = out ++ [c] := fun c =>
    List.take_of_length_le (by rw [List.length_append, List.length_singleton]; omega)
  have stored := store_written (Nat.lt_trans room fits)
  cases item with
  | char c plain =>
      have read : charAt ([c] ++ fmt) (written old out) = .ok c (written old out) := rfl
      rw [Item.format, vaPrintkLoop, Prog.bind_of_ok read, if_pos ⟨plain.1, room⟩,
        if_pos plain.2, Prog.bind_of_ok (stored c), Item.render, single c, List.length_append]
      rfl
  | percent =>
      have read : charAt ([37, 37] ++ fmt) (written old out) = .ok 37 (written old out) := rfl
      have again : charAt (([37, 37] ++ fmt).drop 1) (written old out) =
          .ok 37 (written old out) := rfl
      rw [Item.format, vaPrintkLoop, Prog.bind_of_ok read, if_pos ⟨by decide, room⟩,
        if_neg (not_not_intro rfl), Prog.bind_of_ok again, if_pos rfl,
        Prog.bind_of_ok (stored 37), Item.render, single 37, List.length_append]
      rfl
  | string text beyond noNul =>
      have taken : convert 115 0 (.str (text ++ 0 :: beyond) :: args) (written old out) =
          .ok (text.map some ++ some 0 :: beyond.map some, args) (written old out) := by
        rw [← List.map_cons, ← List.map_append]
        rfl
      exact vaPrintkLoop_conversion fits room rfl rfl (by decide) rfl (by decide) taken noNul
  | number conv width val small named =>
      obtain ⟨c, second, other⟩ := charAt_number conv small fmt (written old out)
      have parsed : parseWidth (widthText width ++ conv.letter :: fmt) 0 (written old out) =
          .ok (UInt32.ofNat width, conv.letter :: fmt) (written old out) := by
        rw [parseWidth_widthText small, parseWidth_letter]
      have value : (UInt32.ofNat width).toNat = width := by
        rw [UInt32.toNat_ofNat', Nat.mod_eq_of_lt (by omega)]
      have below : UInt32.ofNat width < 32 := by
        rw [UInt32.lt_iff_toNat_lt, value]
        exact small
      have taken := convert_number conv small val args (written old out)
      rw [written_snoc] at taken
      have noNul := nul_not_mem_rightJustified (nul_not_mem_body named) width
      rw [Item.format, List.append_assoc]
      exact vaPrintkLoop_conversion fits room value second other parsed below taken noNul

/-! ## Runs -/

/-- A part of a format that a round of the loop prints, or as much of it as fits. -/
structure Piece where
  format : List UInt8
  args : List Arg
  render : List UInt8
  nonempty : 0 < format.length
  round : ∀ {old : Buffer UInt8} {e : Nat} (fuel : Nat) (_ : e < old.length) {out : List UInt8}
    (_ : out.length < e) (fmt : List UInt8) (rest : List Arg),
    vaPrintkLoop e (fuel + 1) (format ++ fmt) (args ++ rest) out.length (written old out) =
      vaPrintkLoop e fuel fmt rest ((out ++ render).take e).length
        (written old ((out ++ render).take e))

def Item.piece (item : Item) : Piece where
  format := item.format
  args := item.args
  render := item.render
  nonempty := by
    cases item with
    | _ => exact Nat.succ_pos _
  round _ fits _ room fmt rest := vaPrintkLoop_item item fits room fmt rest

theorem take_take_append (first second : List UInt8) (e : Nat) :
    (first.take e ++ second).take e = (first ++ second).take e := by
  rw [List.take_append, List.take_append, List.take_take, Nat.min_self, List.length_take,
    show e - min e first.length = e - first.length by omega]

theorem vaPrintkLoop_pieces {e : Nat} (fits : e < old.length) (pieces : List Piece) {fuel : Nat}
    (enough : pieces.length < fuel) {out : List UInt8} (le : out.length ≤ e)
    (beyond : List UInt8) (args : List Arg) :
    vaPrintkLoop e fuel (pieces.flatMap Piece.format ++ 0 :: beyond)
        (pieces.flatMap Piece.args ++ args) out.length (written old out) =
      .ok ((out ++ pieces.flatMap Piece.render).take e).length
        (written old ((out ++ pieces.flatMap Piece.render).take e)) := by
  induction pieces generalizing fuel out with
  | nil =>
      obtain ⟨less, rfl⟩ : ∃ less, fuel = less + 1 := ⟨fuel - 1, by omega⟩
      have read : charAt (0 :: beyond) (written old out) = .ok 0 (written old out) := rfl
      simp only [List.flatMap_nil, List.append_nil, List.nil_append]
      rw [List.take_of_length_le le, vaPrintkLoop, Prog.bind_of_ok read,
        if_neg (fun both => both.1 rfl)]
      rfl
  | cons piece pieces ih =>
      obtain ⟨less, rfl⟩ : ∃ less, fuel = less + 1 := ⟨fuel - 1, by omega⟩
      rcases Nat.lt_or_eq_of_le le with room | full
      · have shorter : ((out ++ piece.render).take e).length ≤ e := List.length_take_le _ _
        have rest := ih (Nat.lt_of_succ_lt_succ enough) shorter
        rw [take_take_append, List.append_assoc] at rest
        rw [List.flatMap_cons, List.flatMap_cons, List.append_assoc, List.append_assoc,
          piece.round less fits room]
        exact rest
      · obtain ⟨c, text, spelled⟩ := List.exists_cons_of_ne_nil
          (List.append_ne_nil_of_right_ne_nil ((piece :: pieces).flatMap Piece.format)
            (List.cons_ne_nil 0 beyond))
        have read : charAt (c :: text) (written old out) = .ok c (written old out) := rfl
        rw [spelled, vaPrintkLoop, Prog.bind_of_ok read, if_neg (fun both => by omega), ← full,
          List.take_left]
        rfl

theorem length_le_format (pieces : List Piece) :
    pieces.length ≤ (pieces.flatMap Piece.format).length := by
  induction pieces with
  | nil => exact Nat.le_refl 0
  | cons piece pieces ih =>
      have nonempty := piece.nonempty
      rw [List.flatMap_cons, List.length_append, List.length_cons]
      omega

/-- `va_printk` on a list of pieces. -/
theorem vaPrintk_pieces {n : Nat} (positive : 1 ≤ n) {buf : Buffer UInt8} (size : buf.length = n)
    (pieces : List Piece) (beyond : List UInt8) (args : List Arg) :
    vaPrintk n (pieces.flatMap Piece.format ++ 0 :: beyond) (pieces.flatMap Piece.args ++ args)
        buf =
      .ok (((pieces.flatMap Piece.render).take (n - 1)).length + 1)
        (written buf ((pieces.flatMap Piece.render).take (n - 1) ++ [0])) := by
  have enough : pieces.length < (pieces.flatMap Piece.format ++ 0 :: beyond).length + 1 := by
    have le := length_le_format pieces
    rw [List.length_append]
    omega
  have started : store 0 0 buf = .ok () (written (buf.set 0 (some 0)) []) := by
    rw [store, if_pos (by omega)]
    rfl
  have fits : n - 1 < (buf.set 0 (some 0)).length := by
    rw [List.length_set, size]
    omega
  have empty : ([] : List UInt8).length ≤ n - 1 := Nat.zero_le _
  have printed := vaPrintkLoop_pieces fits pieces enough empty beyond args
  rw [List.nil_append, List.length_nil] at printed
  have room : ((pieces.flatMap Piece.render).take (n - 1)).length < (buf.set 0 (some 0)).length :=
    Nat.lt_of_le_of_lt (List.length_take_le _ _) fits
  have nonempty := List.append_ne_nil_of_right_ne_nil
    ((pieces.flatMap Piece.render).take (n - 1)) (List.cons_ne_nil (0 : UInt8) [])
  rw [vaPrintk, Prog.bind_of_ok started, Prog.bind_of_ok printed,
    Prog.bind_of_ok (store_written room 0), written_set (List.length_pos_iff.mpr nonempty)]
  rfl

def formatOf (items : List Item) : List UInt8 := items.flatMap Item.format

def argsOf (items : List Item) : List Arg := items.flatMap Item.args

def renderOf (items : List Item) : List UInt8 := items.flatMap Item.render

/-- `va_printk` leaves as many characters of the reference rendering as fit before
the NUL, and the rest of the array as it was. -/
theorem va_printk_renders {n : Nat} (positive : 1 ≤ n) {buf : Buffer UInt8}
    (size : buf.length = n) (items : List Item) (beyond : List UInt8) (args : List Arg) :
    vaPrintk n (formatOf items ++ 0 :: beyond) (argsOf items ++ args) buf =
      .ok (((renderOf items).take (n - 1)).length + 1)
        (written buf ((renderOf items).take (n - 1) ++ [0])) := by
  have printed := vaPrintk_pieces positive size (items.map Item.piece) beyond args
  simp only [List.flatMap_map] at printed
  exact printed

/-- The format `=%15d%%%s` with the least number and a short string. -/
def leastNumber : List Item :=
  [.char 61 (by decide), .number .d 15 (-2147483648) (by decide) (by decide), .percent,
    .string [104, 105] [] (by decide)]

theorem va_printk_renders_of_leastNumber :
    vaPrintk 12 (formatOf leastNumber ++ [0]) (argsOf leastNumber ++ []) (uninit 12) =
      .ok 12 (written (uninit 12) (asciiBytes "=    -21474" ++ [0])) := by
  have rendered : (renderOf leastNumber).take 11 = asciiBytes "=    -21474" := by decide
  have printed := va_printk_renders (by decide : 1 ≤ 12) (List.length_replicate :
    (uninit 12).length = 12) leastNumber [] []
  rw [show 12 - 1 = 11 from rfl, rendered] at printed
  exact printed

end Cs140e.Libpi.Printk
