import Cs140e.Library.Stops
import Cs140e.Esp.Text

/-!
# The arguments a match fetches

A match of a format fetches an argument for each conversion it comes to.  When
there are enough of them no fetch goes behind the last one.
-/

namespace Cs140e.Esp

open Cs140e.Library

/-- Where a fetch behind the arguments that were passed ends. -/
def pastArgs : Stop := .undefined "va_arg past the last argument"

/-! ## Programs that fetch no argument too many -/

namespace Text

/-- The stops of a program that asks only for arguments that were passed. -/
abbrev Within {σ α : Type} (program : Prog σ α) : Prop := StopsOnly (· ≠ pastArgs) program

theorem within_matchEol : Within matchEol := by
  intro text after stop stopped
  rw [matchEol] at stopped
  split at stopped
  · cases stopped
    decide
  · split at stopped <;> cases stopped

theorem within_poke {σ : Type} (buf : List UInt8) (i : Nat) (c : UInt8) :
    Within (poke buf i c : Prog σ (List UInt8)) :=
  .ite (.pure _) (.throw (by decide))

theorem within_lineLoop (rounds i : Nat) (buf : List UInt8) : Within (lineLoop rounds i buf) := by
  induction rounds generalizing i buf with
  | zero => exact .pure _
  | succ rounds ih =>
      exact within_matchEol.bind fun _ _ _ _ => .ite (.pure _)
        ((StopsOnly.next (by decide)).bind fun _ _ _ _ =>
          (within_poke _ _ _).bind fun _ _ _ _ => ih _ _)

theorem within_getNonblankLine (buf : List UInt8) (nbytes : Nat) :
    Within (getNonblankLine buf nbytes) :=
  within_matchEol.bind fun _ _ _ _ => .ite (.pure _)
    ((StopsOnly.skipWhile _ (by decide)).bind fun _ _ _ _ =>
      (within_lineLoop _ _ _).bind fun _ _ _ _ => .ite (.throw (by decide))
        ((within_poke _ _ _).bind fun _ _ _ _ => .pure _))

theorem within_uintLoop (x : UInt32) (i : Nat) : Within (uintLoop x i) := by
  intro text after stop stopped
  induction text generalizing x i with
  | nil =>
      cases stopped
      decide
  | cons c text ih =>
      rw [uintLoop] at stopped
      split at stopped
      · exact ih _ _ stopped
      · cases stopped

theorem within_matchUint : Within matchUint :=
  (StopsOnly.skipWhile _ (by decide)).bind fun _ _ _ _ =>
    (within_uintLoop _ _).bind fun _ _ _ _ => .pure _

theorem within_stringLoop (rounds i : Nat) (out : List UInt8) :
    Within (stringLoop rounds i out) := by
  induction rounds generalizing i out with
  | zero => exact .throw (by decide)
  | succ rounds ih =>
      exact (StopsOnly.next (by decide)).bind fun _ _ _ _ => .ite (within_poke _ _ _)
        ((within_poke _ _ _).bind fun _ _ _ _ => ih _ _)

theorem within_matchLiteralString (out : List UInt8) (nbytes : Nat) :
    Within (matchLiteralString out nbytes) :=
  (StopsOnly.skipWhile _ (by decide)).bind fun _ _ _ _ =>
    (StopsOnly.front (by decide)).bind fun _ _ _ _ => .ite (.pure _)
      (((StopsOnly.next (by decide)).bind fun _ _ _ _ => .pure _).bind fun _ _ _ _ =>
        (within_stringLoop _ _ _).bind fun _ _ _ _ => .pure _)

theorem within_tokLoop (tok : List UInt8) : Within (tokLoop tok) := by
  induction tok with
  | nil => exact .pure _
  | cons p tok ih => exact (StopsOnly.next (by decide)).bind fun _ _ _ _ => .ite (.pure _) ih

theorem within_matchTok (tok : List UInt8) : Within (matchTok tok) := by
  have goesOn : Within (tokGoesOn tok) :=
    .ite ((StopsOnly.front (by decide)).bind fun _ _ _ _ => .pure _) (.pure _)
  have giveBack : ∀ start : List UInt8, Within (do set start; pure false : Prog _ Bool) :=
    fun start => (StopsOnly.set start).bind fun _ _ _ _ => .pure _
  exact StopsOnly.get.bind fun _ start _ _ => (StopsOnly.skipWhile _ (by decide)).bind
    fun _ _ _ _ => (StopsOnly.assertThat _ (by decide)).bind fun _ _ _ _ =>
      (within_tokLoop tok).bind fun _ _ _ _ =>
        .ite (goesOn.bind fun _ _ _ _ => .ite (giveBack start) (.pure _)) (giveBack start)

/-! ## Formats with an argument for each conversion -/

theorem within_arg {args : VaList} (enough : args.next < args.cells.length) :
    Within (args.arg : Prog (List UInt8) (Cell × VaList)) := by
  rw [VaList.arg, List.getElem?_eq_getElem enough]
  exact .pure _

/-- What a fetch that succeeded leaves. -/
theorem arg_next {args after : VaList} {cell : Cell} {text rest : List UInt8}
    (returned : (args.arg : Prog (List UInt8) (Cell × VaList)) text = .ok (cell, after) rest) :
    after.next = args.next + 1 ∧ after.cells = args.cells := by
  rw [VaList.arg] at returned
  cases fetched : args.cells[args.next]? with
  | none => simp only [fetched] at returned; cases returned
  | some found =>
      simp only [fetched] at returned
      cases returned
      exact ⟨rfl, rfl⟩

theorem within_matchConversion (conversion : UInt8) {args : VaList}
    (enough : args.next < args.cells.length) : Within (matchConversion conversion args) := by
  refine .ite ((within_arg enough).bind fun _ result _ _ => ?_)
    (.ite ((within_arg enough).bind fun _ result _ _ => ?_) (.throw (by decide)))
  · obtain ⟨cell, after⟩ := result
    cases cell with
    | uint _ => exact .throw (by decide)
    | str s => exact (within_matchLiteralString s 32).bind fun _ _ _ _ => .pure _
  · obtain ⟨cell, after⟩ := result
    cases cell with
    | uint _ => exact within_matchUint.bind fun _ _ _ _ => .pure _
    | str _ => exact .throw (by decide)

theorem matchConversion_next {conversion : UInt8} {args after : VaList} {found : Bool}
    {text rest : List UInt8}
    (returned : matchConversion conversion args text = .ok (found, after) rest) :
    after.next = args.next + 1 ∧ after.cells.length = args.cells.length := by
  rw [matchConversion] at returned
  split at returned
  · obtain ⟨⟨cell, fetched⟩, _, fetch, converts⟩ := Prog.ok_of_bind_ok returned
    obtain ⟨next, cells⟩ := arg_next fetch
    cases cell with
    | uint _ => cases converts
    | str s =>
        obtain ⟨_, _, _, ends⟩ := Prog.ok_of_bind_ok converts
        cases ends
        exact ⟨next, List.length_set.trans (congrArg List.length cells)⟩
  · split at returned
    · obtain ⟨⟨cell, fetched⟩, _, fetch, converts⟩ := Prog.ok_of_bind_ok returned
      obtain ⟨next, cells⟩ := arg_next fetch
      cases cell with
      | uint _ =>
          obtain ⟨_, _, _, ends⟩ := Prog.ok_of_bind_ok converts
          cases ends
          exact ⟨next, List.length_set.trans (congrArg List.length cells)⟩
      | str _ => cases converts
    · cases returned

/-- The conversion behind the current position of the format. -/
def pending (percent : Bool) : Nat := if percent then 1 else 0

theorem within_matchvLoop {fmt : List UInt8} {first percent mustMatch : Bool} {args : VaList}
    (enough : args.next + pending percent + fmt.count 37 ≤ args.cells.length) :
    Within (matchvLoop fmt first percent mustMatch args) := by
  induction fmt generalizing first percent mustMatch args with
  | nil =>
      cases percent with
      | true => exact .throw (by decide)
      | false => exact .pure _
  | cons f fmt ih =>
      have fewer : fmt.count 37 ≤ (f :: fmt).count 37 := List.count_le_count_cons
      cases percent with
      | true =>
          have one : pending true = 1 := rfl
          refine (within_matchConversion f (by omega)).bind fun _ result _ returned => ?_
          obtain ⟨found, after⟩ := result
          obtain ⟨next, length⟩ := matchConversion_next returned
          refine .ite (ih ?_) (.pure _)
          have none : pending false = 0 := rfl
          omega
      | false =>
          have none : pending false = 0 := rfl
          have goesOn : Within (matchvLoop fmt false false mustMatch args) := ih (by omega)
          rw [matchvLoop]
          refine (StopsOnly.assertThat _ (by decide)).bind fun _ _ _ _ =>
            (StopsOnly.front (by decide)).bind fun _ _ _ _ => .ite (.pure _) ?_
          by_cases literal : f ≠ 37
          · rw [if_pos literal]
            exact .ite ((StopsOnly.skipWhile _ (by decide)).bind fun _ _ _ _ =>
              (StopsOnly.next (by decide)).bind fun _ _ _ _ => .ite (.pure _) goesOn) goesOn
          · rw [if_neg literal]
            rw [not_not] at literal
            subst literal
            rw [List.count_cons_self] at enough
            have one : pending true = 1 := rfl
            exact ih (by omega)

theorem within_matchLinev {fmt : List UInt8} {args : VaList}
    (enough : args.next + fmt.count 37 ≤ args.cells.length) : Within (matchLinev fmt args) := by
  have loops : Within (matchvLoop fmt true false false args) := within_matchvLoop enough
  have tries : Within (matchv fmt args) :=
    StopsOnly.get.bind fun _ start _ _ => (StopsOnly.skipWhile _ (by decide)).bind
      fun _ _ _ _ => loops.bind fun _ _ _ _ => .ite (.pure _)
        (.ite (.throw (by decide)) ((StopsOnly.set start).bind fun _ _ _ _ => .pure _))
  refine tries.bind fun _ result _ _ => ?_
  exact .ite (within_matchEol.bind fun _ _ _ _ => .ite (.pure _) (.throw (by decide))) (.pure _)

theorem within_matchLineOnly {fmt : List UInt8} (literal : fmt.count 37 = 0) :
    Within (matchLineOnly fmt) := by
  have enough : (⟨[], 0⟩ : VaList).next + fmt.count 37 ≤ (⟨[], 0⟩ : VaList).cells.length := by
    rw [literal]
    exact Nat.le_refl 0
  exact ((within_matchLinev enough).bind fun _ _ _ _ => .pure _).bind fun _ _ _ _ => .pure _

theorem matchvLoop_next {fmt : List UInt8} {first percent mustMatch : Bool} {args : VaList}
    {text rest : List UInt8} {result : Matchv}
    (returned : matchvLoop fmt first percent mustMatch args text = .ok result rest) :
    args.next + pending percent ≤ result.args.next ∧
      result.args.cells.length = args.cells.length := by
  induction fmt generalizing first percent mustMatch args text with
  | nil =>
      cases percent with
      | true => cases returned
      | false =>
          cases returned
          exact ⟨Nat.le_refl _, rfl⟩
  | cons f fmt ih =>
      cases percent with
      | true =>
          obtain ⟨⟨found, after⟩, _, converted, goesOn⟩ := Prog.ok_of_bind_ok returned
          obtain ⟨next, length⟩ := matchConversion_next converted
          have one : pending true = 1 := rfl
          cases found with
          | false =>
              cases goesOn
              exact ⟨by dsimp only; omega, length⟩
          | true =>
              obtain ⟨more, same⟩ := ih goesOn
              have none : pending false = 0 := rfl
              exact ⟨by omega, same.trans length⟩
      | false =>
          have none : pending false = 0 := rfl
          rw [matchvLoop] at returned
          obtain ⟨_, _, _, looks⟩ := Prog.ok_of_bind_ok returned
          obtain ⟨_, _, _, branches⟩ := Prog.ok_of_bind_ok looks
          split at branches
          · cases branches
            exact ⟨Nat.le_refl _, rfl⟩
          · split at branches
            · split at branches
              · obtain ⟨_, _, _, takes⟩ := Prog.ok_of_bind_ok branches
                obtain ⟨_, _, _, compares⟩ := Prog.ok_of_bind_ok takes
                split at compares
                · cases compares
                  exact ⟨Nat.le_refl _, rfl⟩
                · exact ih compares
              · exact ih branches
            · obtain ⟨more, same⟩ := ih branches
              exact ⟨Nat.le_trans (Nat.le_add_right _ _) more, same⟩

/-- What `skip_blank_lines` and `skip_blank_space` leave starts with something else. -/
theorem not_eol_of_dropWs {text rest : List UInt8} {c : UInt8}
    (kept : dropWs text = c :: rest) : isEolCh c = false := by
  have other : isWsCh c = false := Input.head_of_dropWhile kept
  rw [isWsCh, Bool.or_eq_false_iff] at other
  exact other.2

end Text

end Cs140e.Esp
