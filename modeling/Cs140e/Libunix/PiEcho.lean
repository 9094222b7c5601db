import Cs140e.Library.Matcher
import Cs140e.Library.Numeral
import Cs140e.Library.Prog

/-!
# Watching the pi for its last words

A translation of `pi-echo.c`, as far as it handles what is read from the pi.
`pi_done` looks for the exit string in everything that was read; when a
character does not fit it starts again behind that character.
-/

namespace Cs140e.Libunix

open Cs140e.Library
open Cs140e.Library.Matcher

/-! ## `pi_done` and `remove_nonprint` -/

def exitString : List UInt8 := asciiBytes "DONE!!!\n"

/-- `pi_done` on the memory at `s`; the state is its static `pos`. -/
def piDone : List UInt8 → Prog Nat Bool
  | [] => throw (.undefined "*s behind the string")
  | c :: s =>
      if c = 0 then pure false
      else do
        let pos ← get
        Prog.assertThat (pos < exitString.length) "pos < n"
        set (pos + 1)
        if exitString[pos]? ≠ some c then
          set 0
          piDone s
        else if pos + 1 = exitString.length then pure true
        else piDone s

def removeNonprint (buf : List UInt8) (n : Nat) : List UInt8 :=
  (buf.take n).map (fun c => if isprint c || (isspace c && c != 13) then c else 32) ++ buf.drop n

/-! ## `pi_echo` -/

/-- A read from the pi that got some bytes, and what `buf` holds behind them
and the 0. -/
structure Read where
  bytes : List UInt8
  stale : List UInt8
  nonempty : bytes ≠ []
  size : bytes.length + 1 + stale.length = 4096

structure EchoState where
  pos : Nat
  out : List UInt8

/-- What `pi_echo` does after such a read. -/
def echoRead (read : Read) : Prog EchoState Bool := do
  let buf := read.bytes ++ 0 :: read.stale
  let buf := removeNonprint buf read.bytes.length
  modify fun state => { state with out := state.out ++ buf.takeWhile (· ≠ 0) }
  Prog.onPart EchoState.pos (fun pos state => { state with pos }) (piDone buf)

/-- The reads one after the other, until `pi_echo` exits: the number of the read
after which it did. -/
def piEcho : List Read → Nat → Prog EchoState (Option Nat)
  | [], _ => pure none
  | read :: reads, k => do
      if ← echoRead read then pure (some k)
      else piEcho reads (k + 1)

/-! ## `pi_done` is a matcher -/

/-- What `remove_nonprint` leaves of the bytes of a read. -/
def Read.clean (read : Read) : List UInt8 := removeNonprint read.bytes read.bytes.length

theorem nul_not_mem_clean (read : Read) : 0 ∉ read.clean := by
  intro mem
  rw [Read.clean, removeNonprint, List.drop_length, List.append_nil] at mem
  obtain ⟨c, _, cleaned⟩ := List.mem_map.mp mem
  split at cleaned
  · rename_i kept
    rw [cleaned] at kept
    cases kept
  · cases cleaned

theorem removeNonprint_buf (read : Read) :
    removeNonprint (read.bytes ++ 0 :: read.stale) read.bytes.length =
      read.clean ++ 0 :: read.stale := by
  rw [Read.clean, removeNonprint, removeNonprint, List.take_left, List.drop_left,
    List.take_length, List.drop_length, List.append_nil]

/-- A character that ends the exit string is the last one looked at. -/
theorem piDone_of_last {c : UInt8} (named : c ≠ 0) {pos : Nat} (inside : pos < exitString.length)
    (last : advance exitString pos c = exitString.length) (s : List UInt8) :
    piDone (c :: s) pos = .ok true exitString.length := by
  by_cases matched : exitString[pos]? = some c
  · rw [advance_of_eq matched] at last
    rw [piDone, if_neg named, Prog.bind_of_ok (Prog.get_apply pos),
      Prog.bind_of_ok (Prog.assertThat_of _ _ (decide_eq_true inside)),
      Prog.bind_of_ok (Prog.set_apply pos _), if_neg (not_not_intro matched), if_pos last, last]
    rfl
  · rw [advance_of_ne matched] at last
    cases last

theorem piDone_of_other {c : UInt8} (named : c ≠ 0) {pos : Nat} (inside : pos < exitString.length)
    (other : advance exitString pos c ≠ exitString.length) (s : List UInt8) :
    piDone (c :: s) pos = piDone s (advance exitString pos c) := by
  rw [piDone, if_neg named, Prog.bind_of_ok (Prog.get_apply pos),
    Prog.bind_of_ok (Prog.assertThat_of _ _ (decide_eq_true inside)),
    Prog.bind_of_ok (Prog.set_apply pos _)]
  by_cases matched : exitString[pos]? = some c
  · rw [advance_of_eq matched] at other ⊢
    rw [if_neg (not_not_intro matched), if_neg other]
  · rw [if_pos matched, advance_of_ne matched, Prog.bind_of_ok (Prog.set_apply _ 0)]

theorem piDone_fires {text : List UInt8} (noNul : 0 ∉ text) {pos : Nat}
    (inside : pos < exitString.length) (fires : Fires exitString pos text) (stale : List UInt8) :
    ∃ after, piDone (text ++ 0 :: stale) pos = .ok true after := by
  induction text generalizing pos with
  | nil => exact absurd fires id
  | cons c text ih =>
      obtain ⟨named, noNul⟩ := not_or.mp (List.mem_cons.not.mp noNul)
      by_cases last : advance exitString pos c = exitString.length
      · exact ⟨_, piDone_of_last (Ne.symm named) inside last _⟩
      · obtain ⟨after, ran⟩ := ih noNul (advance_lt (by decide) inside last)
          (fires.resolve_left last)
        exact ⟨after, (piDone_of_other (Ne.symm named) inside last _).trans ran⟩

theorem piDone_silent {text : List UInt8} (noNul : 0 ∉ text) {pos : Nat}
    (inside : pos < exitString.length) (silent : ¬ Fires exitString pos text)
    (stale : List UInt8) :
    piDone (text ++ 0 :: stale) pos = .ok false (scan exitString pos text) := by
  induction text generalizing pos with
  | nil => rfl
  | cons c text ih =>
      obtain ⟨named, noNul⟩ := not_or.mp (List.mem_cons.not.mp noNul)
      obtain ⟨other, silent⟩ := not_or.mp silent
      exact (piDone_of_other (Ne.symm named) inside other _).trans
        (ih noNul (advance_lt (by decide) inside other) silent)

/-! ## The first read with the exit string -/

/-- Everything `pi_done` was given in some reads. -/
def cleanStream (reads : List Read) : List UInt8 := reads.flatMap Read.clean

/-- The first read after which the stream meets a condition. -/
def FirstAt (meets : List UInt8 → Prop) (reads : List Read) (k : Nat) : Prop :=
  k < reads.length ∧ meets (cleanStream (reads.take (k + 1))) ∧
    ∀ j < k, ¬ meets (cleanStream (reads.take (j + 1)))

theorem FirstAt.unique {meets : List UInt8 → Prop} {reads : List Read} {j k : Nat}
    (first : FirstAt meets reads j) (other : FirstAt meets reads k) : j = k := by
  rcases Nat.lt_trichotomy j k with less | same | more
  · exact absurd first.2.1 (other.2.2 j less)
  · exact same
  · exact absurd other.2.1 (first.2.2 k more)

theorem exists_firstAt {meets : List UInt8 → Prop} {reads : List Read} {j : Nat}
    (inside : j < reads.length) (met : meets (cleanStream (reads.take (j + 1)))) :
    ∃ i ≤ j, FirstAt meets reads i := by
  induction j using Nat.strongRecOn with
  | ind j ih =>
      by_cases earlier : ∃ i < j, meets (cleanStream (reads.take (i + 1)))
      · obtain ⟨i, less, met⟩ := earlier
        obtain ⟨first, le, isFirst⟩ := ih i less (by omega) met
        exact ⟨first, by omega, isFirst⟩
      · exact ⟨j, Nat.le_refl j, inside, met, fun i less met => earlier ⟨i, less, met⟩⟩

theorem cleanStream_take_succ (read : Read) (reads : List Read) (k : Nat) :
    cleanStream ((read :: reads).take (k + 1)) = read.clean ++ cleanStream (reads.take k) := rfl

theorem firstAt_zero (pos : Nat) (read : Read) (reads : List Read) :
    FirstAt (Fires exitString pos) (read :: reads) 0 ↔ Fires exitString pos read.clean := by
  rw [FirstAt, cleanStream_take_succ, List.take_zero]
  simp [cleanStream]

/-- Behind a read that does not end the exit string the matcher goes on. -/
theorem firstAt_succ {pos : Nat} {read : Read} (silent : ¬ Fires exitString pos read.clean)
    (reads : List Read) (k : Nat) :
    FirstAt (Fires exitString pos) (read :: reads) (k + 1) ↔
      FirstAt (Fires exitString (scan exitString pos read.clean)) reads k := by
  simp only [FirstAt, cleanStream_take_succ, fires_append, silent, false_or, List.length_cons,
    Nat.add_lt_add_iff_right]
  constructor
  · rintro ⟨inside, fires, earlier⟩
    exact ⟨inside, fires, fun j less => earlier (j + 1) (Nat.succ_lt_succ less)⟩
  · rintro ⟨inside, fires, earlier⟩
    refine ⟨inside, fires, fun j less => ?_⟩
    cases j with
    | zero => exact id
    | succ j => exact earlier j (Nat.lt_of_succ_lt_succ less)

theorem echoRead_of_piDone {read : Read} {pos after : Nat} {done : Bool}
    (ran : piDone (read.clean ++ 0 :: read.stale) pos = .ok done after) (out : List UInt8) :
    ∃ out', echoRead read ⟨pos, out⟩ = .ok done ⟨after, out'⟩ := by
  rw [echoRead, removeNonprint_buf, Prog.bind_of_ok (Prog.modify_apply _ _)]
  exact ⟨_, Prog.onPart_of_ok ran⟩

theorem echoRead_fires {read : Read} {pos : Nat} (inside : pos < exitString.length)
    (fires : Fires exitString pos read.clean) (out : List UInt8) :
    ∃ after, echoRead read ⟨pos, out⟩ = .ok true after := by
  obtain ⟨after, ran⟩ := piDone_fires (nul_not_mem_clean read) inside fires read.stale
  obtain ⟨out', ran⟩ := echoRead_of_piDone ran out
  exact ⟨_, ran⟩

theorem echoRead_silent {read : Read} {pos : Nat} (inside : pos < exitString.length)
    (silent : ¬ Fires exitString pos read.clean) (out : List UInt8) :
    ∃ out', echoRead read ⟨pos, out⟩ = .ok false ⟨scan exitString pos read.clean, out'⟩ :=
  echoRead_of_piDone (piDone_silent (nul_not_mem_clean read) inside silent read.stale) out

/-- `pi_echo` exits after the read with which the matcher fires. -/
theorem piEcho_firstAt (reads : List Read) {pos : Nat} (inside : pos < exitString.length)
    (out : List UInt8) (k : Nat) :
    ∃ result after, piEcho reads k ⟨pos, out⟩ = .ok result after ∧
      ∀ j, result = some j ↔ ∃ i, j = k + i ∧ FirstAt (Fires exitString pos) reads i := by
  induction reads generalizing pos out k with
  | nil =>
      refine ⟨none, _, rfl, fun j => ⟨fun same => (by cases same), ?_⟩⟩
      rintro ⟨i, _, inside, _⟩
      cases inside
  | cons read reads ih =>
      by_cases fires : Fires exitString pos read.clean
      · obtain ⟨after, ran⟩ := echoRead_fires inside fires out
        have first := (firstAt_zero pos read reads).mpr fires
        refine ⟨some k, after, ?_, fun j => ⟨?_, ?_⟩⟩
        · rw [piEcho, Prog.bind_of_ok ran, if_pos rfl]
          rfl
        · rintro same
          cases same
          exact ⟨0, rfl, first⟩
        · rintro ⟨i, rfl, there⟩
          rw [there.unique first]
          rfl
      · obtain ⟨out', ran⟩ := echoRead_silent inside fires out
        obtain ⟨result, after, rest, exits⟩ :=
          ih (scan_lt (by decide) inside fires) out' (k + 1)
        refine ⟨result, after, ?_, fun j => (exits j).trans ⟨?_, ?_⟩⟩
        · rw [piEcho, Prog.bind_of_ok ran, if_neg Bool.false_ne_true, rest]
        · rintro ⟨i, rfl, there⟩
          exact ⟨i + 1, by omega, (firstAt_succ fires reads i).mpr there⟩
        · rintro ⟨i, rfl, there⟩
          cases i with
          | zero => exact absurd ((firstAt_zero pos read reads).mp there) fires
          | succ i => exact ⟨i, by omega, (firstAt_succ fires reads i).mp there⟩

/-- The exit string begins with its only `D`. -/
theorem fires_exitString_iff (text : List UInt8) :
    Fires exitString 0 text ↔ Heard exitString text := by
  have fresh : (68 : UInt8) ∉ asciiBytes "ONE!!!\n" := by decide
  exact fires_iff_heard fresh

/-- The exit of `pi_echo` is exact: it comes after the first read with which the
exit string is in the stream. -/
def ExactExit (reads : List Read) : Prop :=
  ∃ result after, piEcho reads 0 ⟨0, []⟩ = .ok result after ∧
    ∀ k, result = some k ↔ FirstAt (exitString <:+: ·) reads k

/-- The exit is exact if and only if some exit string in the stream up to that
read comes directly behind an even number of broken-off ones. -/
theorem pi_echo_exact_iff (reads : List Read) :
    ExactExit reads ↔ ∀ k, FirstAt (exitString <:+: ·) reads k →
      Heard exitString (cleanStream (reads.take (k + 1))) := by
  obtain ⟨result, after, ran, exits⟩ :=
    piEcho_firstAt reads (by decide : 0 < exitString.length) [] 0
  have exits : ∀ k, result = some k ↔ FirstAt (Heard exitString) reads k := by
    intro k
    rw [exits]
    simp only [Nat.zero_add, exists_eq_left', FirstAt, fires_exitString_iff]
  constructor
  · rintro ⟨result', after', ran', exact⟩ k first
    rw [ran] at ran'
    cases ran'
    exact ((exits k).mp ((exact k).mpr first)).2.1
  · intro heard
    refine ⟨result, after, ran, fun k => (exits k).trans ⟨?_, ?_⟩⟩
    · intro first
      obtain ⟨i, le, earliest⟩ := exists_firstAt first.1 (infix_of_heard first.2.1)
      have same : i = k := by
        by_contra differs
        exact first.2.2 i (by omega) (heard i earliest)
      exact same ▸ earliest
    · intro first
      exact ⟨first.1, heard k first, fun j less evenly => first.2.2 j less (infix_of_heard evenly)⟩

def doubledD : Read where
  bytes := asciiBytes "DDONE!!!\n"
  stale := List.replicate 4086 0
  nonempty := by decide
  size := by
    rw [List.length_replicate]
    rfl

/-- The exit string behind a `D` is not noticed. -/
theorem pi_echo_misses_doubled_d : ¬ ExactExit [doubledD] := by
  have clean : doubledD.clean = asciiBytes "D" ++ exitString := by decide
  have done : piDone (doubledD.clean ++ 0 :: doubledD.stale) 0 = .ok false 0 := by
    rw [clean]
    rfl
  have first : FirstAt (exitString <:+: ·) [doubledD] 0 := by
    refine ⟨Nat.one_pos, ⟨asciiBytes "D", [], ?_⟩, fun j less => absurd less (Nat.not_lt_zero j)⟩
    rw [List.append_nil, cleanStream_take_succ, clean]
    rfl
  rintro ⟨result, after, ran, exact⟩
  have exits : result = some 0 := (exact 0).mpr first
  obtain ⟨out', missed⟩ := echoRead_of_piDone done []
  rw [piEcho, Prog.bind_of_ok missed] at ran
  cases ran
  cases exits

end Cs140e.Libunix
