import Cs140e.Library.Buffer
import Cs140e.Library.Input
import Cs140e.Esp.Parse

/-!
# The parser on a list of bytes

What `esp-parse.c` does when all input is there to be read: no device, no
buffer and no checkpoints.  The one thing a list cannot say is how many further
end-of-line bytes `match_eol` finds buffered; here it takes none.
-/

namespace Cs140e.Esp.Text

open Cs140e.Library

/-! ## Blanks and ends of lines -/

def isWsCh (ch : UInt8) : Bool := isSpaceCh ch || isEolCh ch

/-- A condition on the bytes of a text is checked along the text, not for all
values of a byte. -/
instance (priority := 2000) decidableOnText {P : UInt8 → Prop} [DecidablePred P]
    (text : List UInt8) : Decidable (∀ c ∈ text, P c) :=
  List.decidableBAll P text

def dropBlanks (text : List UInt8) : List UInt8 := text.dropWhile isSpaceCh

def dropWs (text : List UInt8) : List UInt8 := text.dropWhile isWsCh

theorem isWsCh_of_space {c : UInt8} (space : isSpaceCh c = true) : isWsCh c = true := by
  rw [isWsCh, space, Bool.true_or]

theorem isWsCh_of_eol {c : UInt8} (eol : isEolCh c = true) : isWsCh c = true := by
  rw [isWsCh, eol, Bool.or_true]

theorem isWsCh_of_not {c : UInt8} (space : isSpaceCh c = false) (eol : isEolCh c = false) :
    isWsCh c = false := by
  rw [isWsCh, space, eol, Bool.or_self]

theorem head_of_dropBlanks {text rest : List UInt8} {c : UInt8}
    (kept : dropBlanks text = c :: rest) : isSpaceCh c = false :=
  Input.head_of_dropWhile kept

theorem dropBlanks_cons {c : UInt8} (rest : List UInt8) (other : isSpaceCh c = false) :
    dropBlanks (c :: rest) = c :: rest :=
  List.dropWhile_cons_of_neg (by rw [other]; exact Bool.false_ne_true)

theorem dropWs_cons {c : UInt8} (rest : List UInt8) (other : isWsCh c = false) :
    dropWs (c :: rest) = c :: rest :=
  List.dropWhile_cons_of_neg (by rw [other]; exact Bool.false_ne_true)

@[simp]
theorem dropWs_dropBlanks (text : List UInt8) : dropWs (dropBlanks text) = dropWs text :=
  Input.dropWhile_dropWhile (fun _ => isWsCh_of_space) text

theorem dropWs_eols {eols : List UInt8} (all : ∀ c ∈ eols, isEolCh c = true)
    (rest : List UInt8) : dropWs (eols ++ rest) = dropWs rest :=
  Input.dropWhile_append_of_all (fun c mem => isWsCh_of_eol (all c mem)) rest

theorem dropWs_of_eol {text rest : List UInt8} {c : UInt8} (kept : dropBlanks text = c :: rest)
    (eol : isEolCh c = true) : dropWs text = dropWs rest := by
  rw [← dropWs_dropBlanks, kept]
  exact List.dropWhile_cons_of_pos (isWsCh_of_eol eol)

theorem dropWs_of_not_eol {text rest : List UInt8} {c : UInt8}
    (kept : dropBlanks text = c :: rest) (other : isEolCh c = false) : dropWs text = c :: rest := by
  rw [← dropWs_dropBlanks, kept]
  exact dropWs_cons rest (isWsCh_of_not (head_of_dropBlanks kept) other)

theorem dropWs_nil_of_dropBlanks {text : List UInt8} (none : dropBlanks text = []) :
    dropWs text = [] := by
  rw [← dropWs_dropBlanks, none]
  rfl

/-- The text from the line that starts at `line`, or from a later one, on. -/
def lineFrom (line : List UInt8) : List UInt8 → List UInt8
  | [] => []
  | c :: rest =>
      if isEolCh c then lineFrom rest rest
      else if isSpaceCh c then lineFrom line rest
      else line

/-- The text from the first line on that has something on it. -/
def dropBlankLines (text : List UInt8) : List UInt8 := lineFrom text text

theorem not_space_of_eol {c : UInt8} (eol : isEolCh c = true) : isSpaceCh c = false := by
  rw [isEolCh, Bool.or_eq_true, beq_iff_eq, beq_iff_eq] at eol
  rcases eol with rfl | rfl <;> rfl

theorem dropBlanks_of_space {c : UInt8} (rest : List UInt8) (space : isSpaceCh c = true) :
    dropBlanks (c :: rest) = dropBlanks rest :=
  List.dropWhile_cons_of_pos space

theorem lineFrom_eq (line text : List UInt8) :
    lineFrom line text =
      match dropBlanks text with
      | [] => []
      | c :: rest => if isEolCh c then dropBlankLines rest else line := by
  induction text with
  | nil => rfl
  | cons c rest ih =>
      rw [lineFrom]
      cases eol : isEolCh c with
      | true =>
          rw [dropBlanks_cons rest (not_space_of_eol eol)]
          simp only [eol, if_true]
          rfl
      | false =>
          rw [if_neg Bool.false_ne_true]
          cases space : isSpaceCh c with
          | true => rw [if_pos rfl, ih, dropBlanks_of_space rest space]
          | false =>
              rw [dropBlanks_cons rest space]
              simp only [eol, Bool.false_eq_true, if_false]

theorem dropBlankLines_of_eol {text rest : List UInt8} {c : UInt8}
    (kept : dropBlanks text = c :: rest) (eol : isEolCh c = true) :
    dropBlankLines text = dropBlankLines rest := by
  rw [dropBlankLines, lineFrom_eq, kept]
  exact if_pos eol

theorem dropBlankLines_of_not_eol {text rest : List UInt8} {c : UInt8}
    (kept : dropBlanks text = c :: rest) (other : isEolCh c = false) :
    dropBlankLines text = text := by
  rw [dropBlankLines, lineFrom_eq, kept]
  exact if_neg (by rw [other]; exact Bool.false_ne_true)

theorem dropBlankLines_nil {text : List UInt8} (none : dropBlanks text = []) :
    dropBlankLines text = [] := by
  rw [dropBlankLines, lineFrom_eq, none]

theorem dropBlankLines_eols {eols : List UInt8} (all : ∀ c ∈ eols, isEolCh c = true)
    (rest : List UInt8) : dropBlankLines (eols ++ rest) = dropBlankLines rest := by
  induction eols with
  | nil => rfl
  | cons c eols ih =>
      have eol := all c List.mem_cons_self
      rw [List.cons_append, dropBlankLines_of_eol (dropBlanks_cons _ (not_space_of_eol eol)) eol]
      exact ih fun d mem => all d (List.mem_cons_of_mem _ mem)

theorem dropWs_lineFrom (line text : List UInt8) (same : dropWs line = dropWs text) :
    dropWs (lineFrom line text) = dropWs text := by
  induction text generalizing line with
  | nil => rfl
  | cons c rest ih =>
      rw [lineFrom]
      cases eol : isEolCh c with
      | true =>
          rw [if_pos rfl, ih rest rfl]
          exact (List.dropWhile_cons_of_pos (isWsCh_of_eol eol)).symm
      | false =>
          rw [if_neg Bool.false_ne_true]
          cases space : isSpaceCh c with
          | true =>
              have skipped : dropWs (c :: rest) = dropWs rest :=
                List.dropWhile_cons_of_pos (isWsCh_of_space space)
              rw [if_pos rfl, ih line (same.trans skipped), skipped]
          | false => exact same

@[simp]
theorem dropWs_dropBlankLines (text : List UInt8) : dropWs (dropBlankLines text) = dropWs text :=
  dropWs_lineFrom text text rfl

theorem lineFrom_suffix {line text : List UInt8} (suffix : text <:+ line) :
    lineFrom line text <:+ line := by
  induction text generalizing line with
  | nil => exact List.nil_suffix
  | cons c rest ih =>
      have behind := (List.suffix_cons c rest).trans suffix
      rw [lineFrom]
      split
      · exact (ih (List.suffix_refl rest)).trans behind
      · split
        · exact ih behind
        · exact List.suffix_refl line

theorem dropBlankLines_suffix (text : List UInt8) : dropBlankLines text <:+ text :=
  lineFrom_suffix (List.suffix_refl text)

def skipBlankSpace : Prog (List UInt8) Unit := Input.skipWhile isSpaceCh

def skipLeading : Prog (List UInt8) Unit := Input.skipWhile isWsCh

theorem skipBlankSpace_eq (text : List UInt8) :
    skipBlankSpace text =
      if dropBlanks text = [] then .error .blocked [] else .ok () (dropBlanks text) :=
  Input.skipWhile_eq isSpaceCh text

theorem skipLeading_eq (text : List UInt8) :
    skipLeading text = if dropWs text = [] then .error .blocked [] else .ok () (dropWs text) :=
  Input.skipWhile_eq isWsCh text

def dropc : Prog (List UInt8) Unit := do
  let _ ← Input.next
  pure ()

def matchEol : Prog (List UInt8) Bool := fun text =>
  match dropBlanks text with
  | [] => .error .blocked []
  | c :: rest => if isEolCh c then .ok true rest else .ok false text

/-! ## Lines, numbers and quoted strings -/

def lineLoop : Nat → Nat → List UInt8 → Prog (List UInt8) (Nat × List UInt8)
  | 0, i, buf => pure (i, buf)
  | rounds + 1, i, buf => do
      if ← matchEol then
        pure (i, buf)
      else
        let c ← Input.next
        let buf ← poke buf i c
        lineLoop rounds (i + 1) buf

def getNonblankLine (buf : List UInt8) (nbytes : Nat) : Prog (List UInt8) (Nat × List UInt8) := do
  if ← matchEol then
    pure (0, buf)
  else
    skipBlankSpace
    let (i, buf) ← lineLoop nbytes 0 buf
    if i = nbytes then
      throw (.panic "buffer too small nybtes=%d\n")
    else
      let buf ← poke buf i 0
      pure (i, buf)

def uintLoop : UInt32 → Nat → Prog (List UInt8) (UInt32 × Nat)
  | _, _, [] => .error .blocked []
  | x, i, c :: rest =>
      if isdigit c then uintLoop (x * 10 + c.toUInt32 - 48) (i + 1) rest
      else .ok (x, i) (c :: rest)

def matchUint : Prog (List UInt8) (Bool × UInt32) := do
  skipBlankSpace
  let (x, i) ← uintLoop 0 0
  pure (i ≠ 0, x)

def stringLoop : Nat → Nat → List UInt8 → Prog (List UInt8) (List UInt8)
  | 0, _, _ => throw (.panic "malformed string, exceeded size: <%s>\n")
  | rounds + 1, i, out => do
      let c ← Input.next
      if c = 34 then
        poke out i 0
      else
        let out ← poke out i c
        stringLoop rounds (i + 1) out

def matchLiteralString (out : List UInt8) (nbytes : Nat) :
    Prog (List UInt8) (Bool × List UInt8) := do
  skipBlankSpace
  if (← Input.front) ≠ 34 then
    pure (false, out)
  else
    dropc
    let out ← stringLoop nbytes 0 out
    pure (true, out)

/-- A store behind what is done. -/
theorem poke_done {σ : Type} (done old : List UInt8) (o c : UInt8) (state : σ) :
    (poke (done ++ o :: old) done.length c : Prog σ (List UInt8)) state =
      .ok (done ++ [c] ++ old) state := by
  rw [poke, if_pos, set_done]
  · rfl
  · rw [List.length_append, List.length_cons]
    omega

/-! ## Tokens -/

def tokLoop : List UInt8 → Prog (List UInt8) Bool
  | [] => pure true
  | p :: rest => do
      if p ≠ (← Input.next) then pure false
      else tokLoop rest

def tokGoesOn (tok : List UInt8) : Prog (List UInt8) Bool := do
  if isalpha (tok.getLastD 0) then
    pure (isalpha (← Input.front))
  else
    pure false

def matchTok (tok : List UInt8) : Prog (List UInt8) Bool := do
  let start ← get
  skipLeading
  Prog.assertThat (!tok.isEmpty) "*p"
  if ← tokLoop tok then
    if ← tokGoesOn tok then
      set start
      pure false
    else
      pure true
  else
    set start
    pure false

/-! ## Formats -/

def matchConversion (conversion : UInt8) (args : VaList) : Prog (List UInt8) (Bool × VaList) := do
  if conversion = 115 then
    let (cell, args) ← args.arg
    match cell with
    | .str s =>
        let (found, s) ← matchLiteralString s 32
        pure (found, args.store (.str s))
    | .uint _ => throw (.undefined "argument is no string")
  else if conversion = 117 then
    let (cell, args) ← args.arg
    match cell with
    | .uint _ =>
        let (found, u) ← matchUint
        pure (found, args.store (.uint u))
    | .str _ => throw (.undefined "argument is no number")
  else
    throw (.panic "illegal format string: <%s>\n")

def matchvLoop : List UInt8 → Bool → Bool → Bool → VaList → Prog (List UInt8) Matchv
  | [], _, false, mustMatch, args => pure ⟨true, mustMatch, args⟩
  | [], _, true, _, _ => throw (.panic "illegal format string: <%s>\n")
  | f :: fmt, _, true, mustMatch, args => do
      let (found, args) ← matchConversion f args
      if found then
        matchvLoop fmt false false mustMatch args
      else
        pure ⟨false, mustMatch, args⟩
  | f :: fmt, first, false, mustMatch, args => do
      Prog.assertThat (!isEolCh f) "!is_eol_ch(*fmt)"
      if isEolCh (← Input.front) then
        pure ⟨false, mustMatch, args⟩
      else if f ≠ 37 then
        if f ≠ 32 then
          skipBlankSpace
          if (← Input.next) ≠ f then
            pure ⟨false, mustMatch, args⟩
          else
            matchvLoop fmt false false mustMatch args
        else
          matchvLoop fmt false false mustMatch args
      else
        matchvLoop fmt false true (mustMatch || !first) args

def matchv (fmt : List UInt8) (args : VaList) : Prog (List UInt8) (Bool × VaList) := do
  let start ← get
  skipLeading
  let result ← matchvLoop fmt true false false args
  if result.matched then
    pure (true, result.args)
  else if result.mustMatch then
    throw (.panic "must match failed: malformed value for <%s>!\n")
  else
    set start
    pure (false, result.args)

def matchLinev (fmt : List UInt8) (args : VaList) : Prog (List UInt8) (Bool × VaList) := do
  let (res, args) ← matchv fmt args
  if res then
    if ← matchEol then
      pure (true, args)
    else
      throw (.panic "did not match end of line\n")
  else
    pure (false, args)

def matchLine (fmt : List UInt8) (cells : List Cell) : Prog (List UInt8) (Bool × List Cell) := do
  let (res, args) ← matchLinev fmt ⟨cells, 0⟩
  pure (res, args.cells)

def matchLineOnly (fmt : List UInt8) : Prog (List UInt8) Bool := do
  let (res, _) ← matchLine fmt []
  pure res

def matchPart (fmt : List UInt8) (cells : List Cell) : Prog (List UInt8) (Bool × List Cell) := do
  let (res, args) ← matchv fmt ⟨cells, 0⟩
  pure (res, args.cells)

/-! ## These programs only read -/

open Input

theorem reads_dropc : Reads dropc := reads_next.bind fun _ => reads_pure ()

theorem reads_matchEol : Reads matchEol := by
  intro text rest found returned
  rw [matchEol] at returned
  cases kept : dropBlanks text with
  | nil => simp only [kept] at returned; cases returned
  | cons c tail =>
      have suffix : dropBlanks text <:+ text := List.dropWhile_suffix _
      rw [kept] at suffix
      simp only [kept] at returned
      split at returned
      · cases returned
        exact (List.suffix_cons c _).trans suffix
      · cases returned
        exact List.suffix_refl _

theorem reads_poke (buf : List UInt8) (i : Nat) (c : UInt8) :
    Reads (poke buf i c : Prog (List UInt8) (List UInt8)) :=
  Reads.ite (reads_pure _) (reads_throw _)

theorem reads_lineLoop (rounds i : Nat) (buf : List UInt8) : Reads (lineLoop rounds i buf) := by
  induction rounds generalizing i buf with
  | zero => exact reads_pure _
  | succ rounds ih =>
      exact reads_matchEol.bind fun _ => Reads.ite (reads_pure _)
        (reads_next.bind fun _ => (reads_poke _ _ _).bind fun _ => ih _ _)

theorem reads_getNonblankLine (buf : List UInt8) (nbytes : Nat) :
    Reads (getNonblankLine buf nbytes) :=
  reads_matchEol.bind fun _ => Reads.ite (reads_pure _)
    ((reads_skipWhile _).bind fun _ => (reads_lineLoop _ _ _).bind fun _ =>
      Reads.ite (reads_throw _) ((reads_poke _ _ _).bind fun _ => reads_pure _))

theorem reads_tokLoop (tok : List UInt8) : Reads (tokLoop tok) := by
  induction tok with
  | nil => exact reads_pure _
  | cons p rest ih => exact reads_next.bind fun _ => Reads.ite (reads_pure _) ih

theorem reads_tokGoesOn (tok : List UInt8) : Reads (tokGoesOn tok) :=
  Reads.ite (reads_front.bind fun _ => reads_pure _) (reads_pure _)

theorem reads_stringLoop (rounds i : Nat) (out : List UInt8) :
    Reads (stringLoop rounds i out) := by
  induction rounds generalizing i out with
  | zero => exact reads_throw _
  | succ rounds ih =>
      exact reads_next.bind fun _ =>
        Reads.ite (reads_poke _ _ _) ((reads_poke _ _ _).bind fun _ => ih _ _)

theorem reads_matchLiteralString (out : List UInt8) (nbytes : Nat) :
    Reads (matchLiteralString out nbytes) :=
  (reads_skipWhile _).bind fun _ => reads_front.bind fun _ =>
    Reads.ite (reads_pure _) (reads_dropc.bind fun _ =>
      (reads_stringLoop _ _ _).bind fun _ => reads_pure _)

theorem reads_uintLoop (x : UInt32) (i : Nat) : Reads (uintLoop x i) := by
  intro text rest value returned
  induction text generalizing x i with
  | nil => cases returned
  | cons c text ih =>
      rw [uintLoop] at returned
      split at returned
      · exact (ih _ _ returned).trans (List.suffix_cons _ _)
      · cases returned
        exact List.suffix_refl _

theorem reads_matchUint : Reads matchUint :=
  (reads_skipWhile _).bind fun _ => (reads_uintLoop _ _).bind fun _ => reads_pure _

theorem reads_arg (args : VaList) : Reads (args.arg : Prog (List UInt8) (Cell × VaList)) := by
  rw [VaList.arg]
  split
  · exact reads_pure _
  · exact reads_throw _

theorem reads_matchConversion (conversion : UInt8) (args : VaList) :
    Reads (matchConversion conversion args) := by
  refine Reads.ite ?_ (Reads.ite ?_ (reads_throw _))
  · refine (reads_arg args).bind fun ⟨cell, args⟩ => ?_
    cases cell with
    | uint value => exact reads_throw _
    | str buf => exact (reads_matchLiteralString buf 32).bind fun _ => reads_pure _
  · refine (reads_arg args).bind fun ⟨cell, args⟩ => ?_
    cases cell with
    | uint value => exact reads_matchUint.bind fun _ => reads_pure _
    | str buf => exact reads_throw _

theorem reads_matchvLoop (fmt : List UInt8) (first percent mustMatch : Bool) (args : VaList) :
    Reads (matchvLoop fmt first percent mustMatch args) := by
  induction fmt generalizing first percent mustMatch args with
  | nil =>
      cases percent with
      | false => exact reads_pure _
      | true => exact reads_throw _
  | cons f fmt ih =>
      cases percent with
      | true =>
          refine (reads_matchConversion f args).bind fun _ => ?_
          exact Reads.ite (ih _ _ _ _) (reads_pure _)
      | false =>
          refine (reads_assertThat _ _).bind fun _ => reads_front.bind fun _ => ?_
          refine Reads.ite (reads_pure _) (Reads.ite (Reads.ite ?_ (ih _ _ _ _)) (ih _ _ _ _))
          refine (reads_skipWhile _).bind fun _ => reads_next.bind fun _ => ?_
          exact Reads.ite (reads_pure _) (ih _ _ _ _)

end Cs140e.Esp.Text
