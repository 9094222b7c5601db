import Cs140e.Library.Memory

/-!
# Comparing strings

A translation of `libc/strncmp.c`.  The state is the list of the addresses that
were read.  The loop ends at a difference or after `n` characters, but not at
the end of equal strings: it compares strings exactly if they differ or `n` ends
it in time.
-/

namespace Cs140e.Libpi.Strncmp

open Cs140e.Library

def load (memory : Memory) (p : Nat) : Prog (List Nat) UInt8 := fun reads =>
  .ok (memory p) (reads ++ [p])

/-- `strncmp`; behind a difference the two characters are read again. -/
def strncmp (memory : Memory) : Nat → Nat → Nat → Prog (List Nat) Int
  | _, _, 0 => pure 0
  | s1, s2, n + 1 => do
      let c1 ← load memory s1
      let c2 ← load memory s2
      if c1 ≠ c2 then
        let c1 ← load memory s1
        let c2 ← load memory s2
        pure (c1.toNat - c2.toNat)
      else strncmp memory (s1 + 1) (s2 + 1) n

/-! ## Strings -/

/-- The text is stored at `s` with a NUL behind it. -/
def StringAt (memory : Memory) : Nat → List UInt8 → Prop
  | s, [] => memory s = 0
  | s, c :: text => memory s = c ∧ c ≠ 0 ∧ StringAt memory (s + 1) text

/-- An address from the start of a string to its NUL. -/
def Inside (s : Nat) (text : List UInt8) (p : Nat) : Prop := s ≤ p ∧ p ≤ s + text.length

theorem Inside.start (s : Nat) (text : List UInt8) : Inside s text s :=
  ⟨Nat.le_refl s, Nat.le_add_right s _⟩

theorem Inside.of_tail {s p : Nat} {c : UInt8} {text : List UInt8}
    (inside : Inside (s + 1) text p) : Inside s (c :: text) p := by
  obtain ⟨above, below⟩ := inside
  unfold Inside
  rw [List.length_cons]
  omega

/-- The difference of the first characters in which two texts differ. -/
def difference : Nat → List UInt8 → List UInt8 → Int
  | 0, _, _ => 0
  | _ + 1, [], [] => 0
  | _ + 1, [], c2 :: _ => -c2.toNat
  | _ + 1, c1 :: _, [] => c1.toNat
  | n + 1, c1 :: text1, c2 :: text2 =>
      if c1 ≠ c2 then c1.toNat - c2.toNat else difference n text1 text2

theorem toNat_pos {c : UInt8} (named : c ≠ 0) : 0 < c.toNat := by
  apply Nat.pos_of_ne_zero
  intro zero
  exact named (UInt8.toNat_inj.mp zero)

/-- The sign of the difference is the lexicographic order. -/
theorem difference_sign (n : Nat) (text1 text2 : List UInt8) (named1 : 0 ∉ text1)
    (named2 : 0 ∉ text2) :
    (difference n text1 text2 < 0 ↔ text1.take n < text2.take n) ∧
      (0 < difference n text1 text2 ↔ text2.take n < text1.take n) := by
  induction n generalizing text1 text2 with
  | zero => simp [difference]
  | succ n ih =>
      cases text1 with
      | nil =>
          cases text2 with
          | nil => simp [difference]
          | cons c2 text2 =>
              have positive := toNat_pos (fun zero => named2 (zero ▸ List.mem_cons_self) : c2 ≠ 0)
              simp [difference]
              omega
      | cons c1 text1 =>
          have named := toNat_pos (fun zero => named1 (zero ▸ List.mem_cons_self) : c1 ≠ 0)
          cases text2 with
          | nil =>
              simp [difference]
              omega
          | cons c2 text2 =>
              have rest := ih text1 text2 (fun mem => named1 (List.mem_cons_of_mem _ mem))
                (fun mem => named2 (List.mem_cons_of_mem _ mem))
              by_cases same : c1 = c2
              · subst same
                simpa [difference, List.cons_lt_cons_iff] using rest
              · have apart := mt UInt8.toNat_inj.mp same
                simp only [difference, if_true, ne_eq, same, not_false_eq_true,
                  List.take_succ_cons, List.cons_lt_cons_iff, Ne.symm same, false_and, or_false,
                  UInt8.lt_iff_toNat_lt]
                omega

/-! ## The loop -/

theorem load_apply (memory : Memory) (p : Nat) (reads : List Nat) :
    load memory p reads = .ok (memory p) (reads ++ [p]) := rfl

variable {memory : Memory}

/-- A round on different characters. -/
theorem strncmp_of_ne {s1 s2 : Nat} (differ : memory s1 ≠ memory s2) (n : Nat)
    (reads : List Nat) :
    strncmp memory s1 s2 (n + 1) reads =
      .ok ((memory s1).toNat - (memory s2).toNat) (reads ++ [s1, s2, s1, s2]) := by
  rw [strncmp, Prog.bind_of_ok (load_apply ..), Prog.bind_of_ok (load_apply ..), if_pos differ,
    Prog.bind_of_ok (load_apply ..), Prog.bind_of_ok (load_apply ..)]
  simp

/-- A round on equal ones. -/
theorem strncmp_of_eq {s1 s2 : Nat} (same : memory s1 = memory s2) (n : Nat) (reads : List Nat) :
    strncmp memory s1 s2 (n + 1) reads =
      strncmp memory (s1 + 1) (s2 + 1) n (reads ++ [s1, s2]) := by
  rw [strncmp, Prog.bind_of_ok (load_apply ..), Prog.bind_of_ok (load_apply ..),
    if_neg (not_not_intro same), List.append_assoc]
  rfl

/-- Every loop returns, and reads the first characters if it has a round. -/
theorem strncmp_returns (memory : Memory) (s1 s2 n : Nat) (reads : List Nat) :
    ∃ result more, strncmp memory s1 s2 n reads = .ok result (reads ++ more) ∧
      (0 < n → s1 ∈ more ∧ s2 ∈ more) := by
  induction n generalizing s1 s2 reads with
  | zero => exact ⟨0, [], by rw [List.append_nil]; rfl, fun some => absurd some (by decide)⟩
  | succ n ih =>
      by_cases same : memory s1 = memory s2
      · obtain ⟨result, more, ran, -⟩ := ih (s1 + 1) (s2 + 1) (reads ++ [s1, s2])
        rw [List.append_assoc] at ran
        exact ⟨result, _, (strncmp_of_eq same n reads).trans ran, fun _ => by simp⟩
      · exact ⟨_, _, strncmp_of_ne same n reads, fun _ => by simp⟩

/-- A round that ends the comparison reads the first characters only. -/
theorem strncmp_stops {s1 s2 : Nat} (differ : memory s1 ≠ memory s2) (n : Nat)
    (text1 text2 : List UInt8) (reads : List Nat) :
    ∃ more, strncmp memory s1 s2 (n + 1) reads =
        .ok ((memory s1).toNat - (memory s2).toNat) (reads ++ more) ∧
      ∀ p ∈ more, Inside s1 text1 p ∨ Inside s2 text2 p :=
  ⟨_, strncmp_of_ne differ n reads, by simp [Inside.start]⟩

/-- When the texts differ or `n` ends the loop at their NUL, the result is the
difference of the texts and only the strings are read. -/
theorem strncmp_apply {text1 text2 : List UInt8} {s1 s2 : Nat} (first : StringAt memory s1 text1)
    (second : StringAt memory s2 text2) {n : Nat} (ends : text1 = text2 → n ≤ text1.length + 1)
    (reads : List Nat) :
    ∃ more, strncmp memory s1 s2 n reads = .ok (difference n text1 text2) (reads ++ more) ∧
      ∀ p ∈ more, Inside s1 text1 p ∨ Inside s2 text2 p := by
  induction n generalizing text1 text2 s1 s2 reads with
  | zero => exact ⟨[], by rw [List.append_nil]; rfl, by simp⟩
  | succ n ih =>
      cases text1 with
      | nil =>
          have start : memory s1 = 0 := first
          cases text2 with
          | nil =>
              -- `n` was 1
              have last : n = 0 := Nat.le_zero.mp (Nat.le_of_succ_le_succ (ends rfl))
              subst last
              refine ⟨[s1, s2], ?_, by simp [Inside.start]⟩
              rw [strncmp_of_eq (start.trans second.symm)]
              rfl
          | cons c2 text2 =>
              obtain ⟨head, named, -⟩ := second
              have differ : memory s1 ≠ memory s2 := by
                rw [start, head]
                exact Ne.symm named
              have stopped := strncmp_stops differ n [] (c2 :: text2) reads
              simpa [start, head, difference] using stopped
      | cons c1 text1 =>
          obtain ⟨head1, named1, tail1⟩ := first
          cases text2 with
          | nil =>
              have start : memory s2 = 0 := second
              have differ : memory s1 ≠ memory s2 := by
                rw [start, head1]
                exact named1
              have stopped := strncmp_stops differ n (c1 :: text1) [] reads
              simpa [start, head1, difference] using stopped
          | cons c2 text2 =>
              obtain ⟨head2, -, tail2⟩ := second
              by_cases same : c1 = c2
              · subst same
                have shorter : text1 = text2 → n ≤ text1.length + 1 := by
                  rintro rfl
                  exact Nat.le_of_succ_le_succ (ends rfl)
                obtain ⟨more, ran, inside⟩ := ih tail1 tail2 shorter (reads ++ [s1, s2])
                refine ⟨[s1, s2] ++ more, ?_, ?_⟩
                · rw [strncmp_of_eq (head1.trans head2.symm), ran, List.append_assoc, difference,
                    if_neg (not_not_intro rfl)]
                · intro p mem
                  rcases List.mem_append.mp mem with here | later
                  · rcases List.mem_pair.mp here with rfl | rfl
                    · exact .inl (.start ..)
                    · exact .inr (.start ..)
                  · exact (inside p later).imp Inside.of_tail Inside.of_tail
              · have differ : memory s1 ≠ memory s2 := by
                  rw [head1, head2]
                  exact same
                have stopped := strncmp_stops differ n (c1 :: text1) (c2 :: text2) reads
                rw [head1, head2] at stopped
                rw [difference, if_pos same]
                exact stopped

/-- The loop on equal strings goes on behind their NULs. -/
theorem strncmp_reads_behind {text : List UInt8} {s1 s2 : Nat} (first : StringAt memory s1 text)
    (second : StringAt memory s2 text) {n : Nat} (more : text.length + 1 < n) (reads : List Nat) :
    ∃ result read, strncmp memory s1 s2 n reads = .ok result (reads ++ read) ∧
      s1 + (text.length + 1) ∈ read ∧ s2 + (text.length + 1) ∈ read := by
  induction text generalizing s1 s2 n reads with
  | nil =>
      obtain ⟨n, rfl⟩ : ∃ m, n = m + 2 := ⟨n - 2, by simp at more; omega⟩
      obtain ⟨result, read, ran, starts⟩ :=
        strncmp_returns memory (s1 + 1) (s2 + 1) (n + 1) (reads ++ [s1, s2])
      obtain ⟨one, two⟩ := starts (Nat.succ_pos n)
      refine ⟨result, [s1, s2] ++ read, ?_, by simp [one], by simp [two]⟩
      rw [strncmp_of_eq (Eq.trans first second.symm), ran, List.append_assoc]
  | cons c text ih =>
      obtain ⟨head1, -, tail1⟩ := first
      obtain ⟨head2, -, tail2⟩ := second
      obtain ⟨n, rfl⟩ : ∃ m, n = m + 1 := ⟨n - 1, by omega⟩
      rw [List.length_cons] at more ⊢
      obtain ⟨result, read, ran, one, two⟩ :=
        ih tail1 tail2 (Nat.lt_of_succ_lt_succ more) (reads ++ [s1, s2])
      rw [Nat.add_assoc, Nat.add_comm 1] at one two
      refine ⟨result, [s1, s2] ++ read, ?_, by simp [one], by simp [two]⟩
      rw [strncmp_of_eq (head1.trans head2.symm), ran, List.append_assoc]

/-! ## Comparing strings -/

/-- The result is the lexicographic order of the first `n` characters, nothing
outside of the strings is read, and the result is the same in any other memory
that holds the strings. -/
structure ComparesStrings (memory : Memory) (s1 s2 : Nat) (text1 text2 : List UInt8) (n : Nat) :
    Prop where
  compares : ∃ result reads, strncmp memory s1 s2 n [] = .ok result reads ∧
    (result < 0 ↔ text1.take n < text2.take n) ∧ (0 < result ↔ text2.take n < text1.take n) ∧
    ∀ p ∈ reads, Inside s1 text1 p ∨ Inside s2 text2 p
  independent : ∀ other, StringAt other s1 text1 → StringAt other s2 text2 →
    returned? (strncmp other s1 s2 n []) = returned? (strncmp memory s1 s2 n [])

theorem StringAt.nul_not_mem {s : Nat} {text : List UInt8} (stored : StringAt memory s text) :
    0 ∉ text := by
  induction text generalizing s with
  | nil => simp
  | cons c text ih =>
      obtain ⟨-, named, rest⟩ := stored
      rw [List.mem_cons, not_or]
      exact ⟨Ne.symm named, ih rest⟩

/-- `strncmp` compares strings if and only if they differ or `n` ends the loop at
their NUL or earlier. -/
theorem strncmp_compares_strings_iff {s1 s2 : Nat} {text1 text2 : List UInt8}
    (first : StringAt memory s1 text1) (second : StringAt memory s2 text2) (n : Nat) :
    ComparesStrings memory s1 s2 text1 text2 n ↔ (text1 = text2 → n ≤ text1.length + 1) := by
  constructor
  · rintro ⟨⟨result, reads, ran, -, -, inside⟩, -⟩ rfl
    by_contra many
    obtain ⟨result', read, ran', one, two⟩ :=
      strncmp_reads_behind first second (Nat.lt_of_not_le many) []
    rw [ran] at ran'
    cases ran'
    have outside1 := inside _ one
    have outside2 := inside _ two
    unfold Inside at outside1 outside2
    omega
  · intro ends
    obtain ⟨reads, ran, inside⟩ := strncmp_apply first second ends []
    obtain ⟨less, greater⟩ := difference_sign n text1 text2 first.nul_not_mem second.nul_not_mem
    refine ⟨⟨_, _, ran, less, greater, inside⟩, ?_⟩
    intro other first' second'
    obtain ⟨reads', ran', -⟩ := strncmp_apply first' second' ends []
    rw [ran, ran']
    rfl

/-- Two strings with other bytes behind them. -/
def strings (text1 text2 : List UInt8) : Memory :=
  Memory.put (Memory.put (fun _ => 0) 16 (text1 ++ [0, 1])) 32 (text2 ++ [0, 2])

theorem strncmp_compares_strings_iff_of_ab :
    ComparesStrings (strings [97, 98] [97, 99]) 16 32 [97, 98] [97, 99] 9 := by
  have first : StringAt (strings [97, 98] [97, 99]) 16 [97, 98] :=
    ⟨rfl, by decide, rfl, by decide, rfl⟩
  have second : StringAt (strings [97, 98] [97, 99]) 32 [97, 99] :=
    ⟨rfl, by decide, rfl, by decide, rfl⟩
  exact (strncmp_compares_strings_iff first second 9).mpr (by decide)

/-- Two equal strings are compared with what lies behind them. -/
theorem strncmp_compares_memory :
    ¬ ∀ (memory : Memory) (s1 s2 : Nat) (text1 text2 : List UInt8) (n : Nat),
      StringAt memory s1 text1 → StringAt memory s2 text2 →
        ComparesStrings memory s1 s2 text1 text2 n := by
  intro all
  have equal := all (strings [97] [97]) 16 32 [97] [97] 4 ⟨rfl, by decide, rfl⟩
    ⟨rfl, by decide, rfl⟩
  obtain ⟨⟨result, reads, ran, less, -⟩, -⟩ := equal
  have negative : strncmp (strings [97] [97]) 16 32 4 [] =
      .ok (-1) [16, 32, 17, 33, 18, 34, 18, 34] := rfl
  rw [negative] at ran
  cases ran
  exact absurd (less.mp (by decide)) (by decide)

end Cs140e.Libpi.Strncmp
