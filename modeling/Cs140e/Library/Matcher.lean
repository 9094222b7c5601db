import Mathlib.Data.List.Infix

/-!
# A matcher that drops the character it fails on

The matcher keeps how much of the pattern it has just seen, and after any other
character it starts again behind that character.  When the pattern begins with
a character that does not come back in it, the matcher misses an occurrence
exactly behind an odd number of broken-off occurrences.
-/

namespace Cs140e.Library.Matcher

variable {α : Type} {pattern : List α}

/-! ## Broken-off occurrences -/

/-- A part of the pattern that was broken off. -/
def Piece (pattern piece : List α) : Prop :=
  ∃ k, 0 < k ∧ k < pattern.length ∧ piece = pattern.take k

/-- No piece ends here. -/
def Settled (pattern start : List α) : Prop := ∀ piece, Piece pattern piece → ¬ piece <:+ start

/-- The pattern occurs in the text directly behind an even number of pieces. -/
def Heard (pattern text : List α) : Prop :=
  ∃ (start : List α) (pieces : List (List α)) (rest : List α),
    text = start ++ pieces.flatten ++ (pattern ++ rest) ∧
    Settled pattern start ∧ (∀ piece ∈ pieces, Piece pattern piece) ∧ pieces.length % 2 = 0

/-- Every text ends with some number of pieces. -/
theorem exists_pieces (pattern text : List α) :
    ∃ (start : List α) (pieces : List (List α)), text = start ++ pieces.flatten ∧
      Settled pattern start ∧
      ∀ piece ∈ pieces, Piece pattern piece := by
  generalize size : text.length = n
  induction n using Nat.strongRecOn generalizing text with
  | ind n ih =>
      by_cases settled : Settled pattern text
      · exact ⟨text, [], (List.append_nil text).symm, settled,
          fun _ mem => absurd mem List.not_mem_nil⟩
      · rw [Settled] at settled
        push Not at settled
        obtain ⟨piece, isPiece, before, rfl⟩ := settled
        obtain ⟨k, positive, inside, rfl⟩ := isPiece
        have shorter : before.length < n := by
          rw [← size, List.length_append, List.length_take]
          omega
        obtain ⟨start, pieces, rfl, settled, all⟩ := ih _ shorter before rfl
        refine ⟨start, pieces ++ [pattern.take k], ?_, settled, ?_⟩
        · rw [List.flatten_append, List.flatten_singleton, List.append_assoc]
        · intro piece mem
          rcases List.mem_append.mp mem with older | last
          · exact all piece older
          · rw [List.mem_singleton.mp last]
            exact ⟨k, positive, inside, rfl⟩

theorem infix_of_heard {text : List α} (heard : Heard pattern text) : pattern <:+: text := by
  obtain ⟨start, pieces, rest, rfl, _⟩ := heard
  exact ⟨start ++ pieces.flatten, rest, List.append_assoc _ _ _⟩

/-! ## The matcher -/

variable [DecidableEq α]

/-- How much of the pattern was seen after one more character. -/
def advance (pattern : List α) (pos : Nat) (c : α) : Nat :=
  if pattern[pos]? = some c then pos + 1 else 0

def scan (pattern : List α) (pos : Nat) (text : List α) : Nat :=
  text.foldl (advance pattern) pos

/-- Somewhere in the text the whole pattern was seen. -/
def Fires (pattern : List α) : Nat → List α → Prop
  | _, [] => False
  | pos, c :: text =>
      advance pattern pos c = pattern.length ∨ Fires pattern (advance pattern pos c) text

@[simp]
theorem scan_nil (pos : Nat) : scan pattern pos [] = pos := rfl

theorem scan_cons (pos : Nat) (c : α) (text : List α) :
    scan pattern pos (c :: text) = scan pattern (advance pattern pos c) text := rfl

theorem scan_append (pos : Nat) (first second : List α) :
    scan pattern pos (first ++ second) = scan pattern (scan pattern pos first) second :=
  List.foldl_append

theorem fires_append (pos : Nat) (first second : List α) :
    Fires pattern pos (first ++ second) ↔
      Fires pattern pos first ∨ Fires pattern (scan pattern pos first) second := by
  induction first generalizing pos with
  | nil => rw [List.nil_append, scan_nil, Fires, false_or]
  | cons c first ih => rw [List.cons_append, Fires, Fires, ih, scan_cons, or_assoc]

theorem advance_of_eq {pos : Nat} {c : α} (matched : pattern[pos]? = some c) :
    advance pattern pos c = pos + 1 := if_pos matched

theorem advance_of_ne {pos : Nat} {c : α} (failed : pattern[pos]? ≠ some c) :
    advance pattern pos c = 0 := if_neg failed

theorem advance_lt {pos : Nat} (nonempty : 0 < pattern.length) (inside : pos < pattern.length)
    {c : α} (silent : advance pattern pos c ≠ pattern.length) :
    advance pattern pos c < pattern.length := by
  rw [advance] at silent ⊢
  split at silent <;> rename_i matched
  · rw [if_pos matched]
    omega
  · rwa [if_neg matched]

/-- As long as the matcher is silent it waits for a character of the pattern. -/
theorem scan_lt {pos : Nat} (nonempty : 0 < pattern.length) (inside : pos < pattern.length)
    {text : List α} (silent : ¬ Fires pattern pos text) :
    scan pattern pos text < pattern.length := by
  induction text generalizing pos with
  | nil => exact inside
  | cons c text ih =>
      rw [Fires, not_or] at silent
      exact ih (advance_lt nonempty inside silent.1) silent.2

/-- What the matcher says it has seen is the end of the text. -/
theorem take_scan_suffix (pos : Nat) (text : List α) :
    pattern.take (scan pattern pos text) <:+ pattern.take pos ++ text := by
  induction text generalizing pos with
  | nil => exact ⟨[], by rw [scan_nil, List.nil_append, List.append_nil]⟩
  | cons c text ih =>
      rw [scan_cons]
      by_cases matched : pattern[pos]? = some c
      · have grown : pattern.take (pos + 1) = pattern.take pos ++ [c] := by
          rw [List.take_add_one, matched]
          rfl
        have seen := ih (pos + 1)
        rw [grown, List.append_assoc] at seen
        rw [advance_of_eq matched]
        exact seen
      · rw [advance_of_ne matched]
        exact (ih 0).trans ⟨pattern.take pos ++ [c], by
          rw [List.append_assoc, List.take_zero, List.nil_append]
          rfl⟩

theorem scan_take {k : Nat} (inside : k ≤ pattern.length) :
    scan pattern 0 (pattern.take k) = k := by
  induction k with
  | zero => rfl
  | succ k ih =>
      have next : pattern[k]? = some pattern[k] := List.getElem?_eq_getElem inside
      rw [List.take_add_one, next, scan_append, ih (by omega)]
      exact advance_of_eq next

theorem scan_whole (pattern : List α) : scan pattern 0 pattern = pattern.length := by
  have whole := scan_take (Nat.le_refl pattern.length)
  rwa [List.take_length] at whole

theorem fires_of_scan {pos : Nat} (inside : pos < pattern.length) {text : List α}
    (seen : scan pattern pos text = pattern.length) : Fires pattern pos text := by
  by_contra silent
  have less := scan_lt (by omega) inside silent
  omega

/-- Where the matcher fires it has taken the rest of the pattern, or a whole one
that it was waiting for. -/
theorem rest_or_occurrence_of_fires {pos : Nat} (inside : pos < pattern.length) {text : List α}
    (fires : Fires pattern pos text) :
    (∃ rest, text = pattern.drop pos ++ rest) ∨
      ∃ before rest, text = before ++ (pattern ++ rest) ∧ scan pattern pos before = 0 ∧
        ¬ Fires pattern pos before := by
  induction text generalizing pos with
  | nil => exact absurd fires id
  | cons c text ih =>
      by_cases matched : pattern[pos]? = some c
      · have drop : pattern.drop pos = c :: pattern.drop (pos + 1) := by
          rw [List.getElem?_eq_getElem inside] at matched
          rw [List.drop_eq_getElem_cons inside, Option.some.inj matched]
        rw [Fires, advance_of_eq matched] at fires
        by_cases last : pos + 1 = pattern.length
        · refine .inl ⟨text, ?_⟩
          rw [drop, last, List.drop_length]
          rfl
        · rcases ih (by omega) (fires.resolve_left last) with ⟨rest, rfl⟩ | later
          · refine .inl ⟨rest, ?_⟩
            rw [drop]
            rfl
          · obtain ⟨before, rest, rfl, waiting, silent⟩ := later
            refine .inr ⟨c :: before, rest, rfl, ?_, ?_⟩
            · rw [scan_cons, advance_of_eq matched, waiting]
            · rw [Fires, advance_of_eq matched, not_or]
              exact ⟨last, silent⟩
      · have nonempty : 0 ≠ pattern.length := by omega
        rw [Fires, advance_of_ne matched] at fires
        rcases ih (by omega) (fires.resolve_left nonempty) with ⟨rest, rfl⟩ | later
        · refine .inr ⟨[c], rest, rfl, ?_, ?_⟩
          · rw [scan_cons, advance_of_ne matched, scan_nil]
          · rw [Fires, advance_of_ne matched, not_or]
            exact ⟨nonempty, id⟩
        · obtain ⟨before, rest, rfl, waiting, silent⟩ := later
          refine .inr ⟨c :: before, rest, rfl, ?_, ?_⟩
          · rw [scan_cons, advance_of_ne matched, waiting]
          · rw [Fires, advance_of_ne matched, not_or]
            exact ⟨nonempty, silent⟩

theorem occurrence_of_fires (inside : 0 < pattern.length) {text : List α}
    (fires : Fires pattern 0 text) :
    ∃ before rest, text = before ++ (pattern ++ rest) ∧ scan pattern 0 before = 0 ∧
      ¬ Fires pattern 0 before := by
  rcases rest_or_occurrence_of_fires inside fires with ⟨rest, rfl⟩ | found
  · exact ⟨[], rest, rfl, rfl, id⟩
  · exact found

theorem scan_settled {start : List α} (nonempty : 0 < pattern.length)
    (settled : Settled pattern start) (silent : ¬ Fires pattern 0 start) :
    scan pattern 0 start = 0 := by
  by_contra positive
  have seen : pattern.take (scan pattern 0 start) <:+ start := take_scan_suffix 0 start
  exact settled _ ⟨_, Nat.pos_of_ne_zero positive, scan_lt nonempty nonempty silent, rfl⟩ seen

section

/-! ## Patterns that begin with a character of their own -/

variable {first : α} {others : List α} (fresh : first ∉ others)

include fresh

theorem scan_others {text : List α} (inside : ∀ c ∈ text, c ∈ others) :
    scan (first :: others) 0 text = 0 := by
  induction text with
  | nil => rfl
  | cons c text ih =>
      obtain ⟨head, tail⟩ := List.forall_mem_cons.mp inside
      have failed : (first :: others)[0]? ≠ some c := by
        rintro same
        cases same
        exact fresh head
      rw [scan_cons, advance_of_ne failed]
      exact ih tail

/-- A piece is taken from its beginning, or else it is dropped. -/
theorem scan_piece {piece : List α} (isPiece : Piece (first :: others) piece) {pos : Nat}
    (inside : pos < (first :: others).length) :
    scan (first :: others) pos piece < (first :: others).length ∧
      (scan (first :: others) pos piece = 0 ↔ pos ≠ 0) := by
  obtain ⟨k, positive, short, rfl⟩ := isPiece
  cases pos with
  | zero =>
      rw [scan_take (Nat.le_of_lt short)]
      exact ⟨short, by omega⟩
  | succ pos =>
      obtain ⟨less, rfl⟩ : ∃ less, k = less + 1 := ⟨k - 1, by omega⟩
      have failed : (first :: others)[pos + 1]? ≠ some first := by
        intro same
        exact fresh (List.mem_of_getElem? same)
      have dropped : scan (first :: others) (pos + 1) ((first :: others).take (less + 1)) = 0 := by
        rw [List.take_succ_cons, scan_cons, advance_of_ne failed]
        exact scan_others fresh fun c mem => List.mem_of_mem_take mem
      rw [dropped]
      exact ⟨Nat.succ_pos _, by omega⟩

theorem scan_pieces {pieces : List (List α)}
    (all : ∀ piece ∈ pieces, Piece (first :: others) piece) {pos : Nat}
    (inside : pos < (first :: others).length) :
    scan (first :: others) pos pieces.flatten = 0 ↔ (pos = 0 ↔ pieces.length % 2 = 0) := by
  induction pieces generalizing pos with
  | nil => simp
  | cons piece pieces ih =>
      obtain ⟨isPiece, all⟩ := List.forall_mem_cons.mp all
      obtain ⟨inside', dropped⟩ := scan_piece fresh isPiece inside
      rw [List.flatten_cons, scan_append, ih all inside', dropped, List.length_cons]
      omega

/-- The matcher fires on the occurrences behind an even number of pieces. -/
theorem fires_iff_heard {text : List α} :
    Fires (first :: others) 0 text ↔ Heard (first :: others) text := by
  have inside : 0 < (first :: others).length := Nat.succ_pos _
  constructor
  · intro fires
    obtain ⟨before, rest, rfl, waiting, silent⟩ := occurrence_of_fires inside fires
    obtain ⟨start, pieces, rfl, settled, all⟩ := exists_pieces (first :: others) before
    rw [fires_append, not_or] at silent
    rw [scan_append, scan_settled inside settled silent.1, scan_pieces fresh all inside] at waiting
    exact ⟨start, pieces, rest, rfl, settled, all, waiting.mp rfl⟩
  · rintro ⟨start, pieces, rest, rfl, settled, all, even⟩
    rw [fires_append]
    by_cases before : Fires (first :: others) 0 (start ++ pieces.flatten)
    · exact .inl before
    · right
      rw [fires_append, not_or] at before
      have waiting : scan (first :: others) 0 (start ++ pieces.flatten) = 0 := by
        rw [scan_append, scan_settled inside settled before.1, scan_pieces fresh all inside]
        exact ⟨fun _ => even, fun _ => rfl⟩
      rw [waiting, fires_append]
      exact .inl (fires_of_scan inside (scan_whole _))

end

end Cs140e.Library.Matcher
