import Cs140e.Library.Buffer

/-!
# Strings in an array

A string is ended by a zero byte.  Functions that append to the string at the
front of an array are put together by `Appends`: they either have room for the
whole text and its end, or store outside of the array.
-/

namespace Cs140e.Library

open Buffer

variable {σ : Type}

/-- The string at the front of an array. -/
def stringAt : Buffer UInt8 → Option (List UInt8)
  | some c :: rest => if c = 0 then some [] else (stringAt rest).map (c :: ·)
  | _ => none

def strlen : Buffer UInt8 → Prog σ Nat
  | [] => throw (.undefined "a cell outside of the array")
  | none :: _ => throw (.undefined "a cell that is not set")
  | some c :: rest =>
      if c = 0 then pure 0
      else do
        let ret ← strlen rest
        pure (ret + 1)

/-- The second loop of `strcat`. -/
def copyString (s1 : Nat) : List UInt8 → Prog (Buffer UInt8) Unit
  | [] => throw (.undefined "a cell outside of the array")
  | c :: s2 => do
      store s1 c
      if c = 0 then pure () else copyString (s1 + 1) s2

def strcat (dest : Nat) (src : List UInt8) : Prog (Buffer UInt8) Unit := do
  let len ← strlen ((← get).drop dest)
  copyString (dest + len) src

theorem stringAt_append {text : List UInt8} (nonzero : 0 ∉ text) (rest : Buffer UInt8) :
    stringAt ((text ++ [0]).map some ++ rest) = some text := by
  induction text with
  | nil => rfl
  | cons c text ih =>
      rw [List.mem_cons, not_or] at nonzero
      rw [List.cons_append, List.map_cons, List.cons_append, stringAt,
        if_neg (Ne.symm nonzero.1), ih nonzero.2]
      rfl

theorem strlen_append {text : List UInt8} (nonzero : 0 ∉ text) (rest : Buffer UInt8) (state : σ) :
    strlen ((text ++ [0]).map some ++ rest) state = .ok text.length state := by
  induction text with
  | nil => rfl
  | cons c text ih =>
      rw [List.mem_cons, not_or] at nonzero
      rw [List.cons_append, List.map_cons, List.cons_append, strlen,
        if_neg (Ne.symm nonzero.1), Prog.bind_of_ok (ih nonzero.2)]
      rfl

theorem copyString_fits {text : List UInt8} (nonzero : 0 ∉ text) {old : Buffer UInt8}
    {front : List UInt8} (room : (front ++ text).length < old.length) :
    copyString front.length (text ++ [0]) (written old front) =
      .ok () (written old (front ++ text ++ [0])) := by
  induction text generalizing front with
  | nil =>
      rw [List.append_nil] at room ⊢
      rw [List.nil_append, copyString, Prog.bind_of_ok (store_written room 0), if_pos rfl]
      rfl
  | cons c text ih =>
      rw [List.mem_cons, not_or] at nonzero
      rw [List.append_cons] at room
      have start : front.length < old.length := by
        simp only [List.length_append, List.length_cons] at room
        omega
      have behind : front.length + 1 = (front ++ [c]).length := by
        rw [List.length_append, List.length_singleton]
      rw [List.cons_append, copyString, Prog.bind_of_ok (store_written start c),
        if_neg (Ne.symm nonzero.1), behind, ih nonzero.2 room, List.append_cons front c text]

/-- A store outside of an array. -/
def Overflows {α β : Type} (outcome : Outcome (Buffer α) β) : Prop :=
  stopped? outcome = some (.undefined "a store outside of the array")

theorem overflows_bind {α β : Type} {program : Prog (Buffer UInt8) α}
    {next : α → Prog (Buffer UInt8) β} {buffer : Buffer UInt8}
    (overflows : Overflows (program buffer)) : Overflows ((program >>= next) buffer) := by
  cases ran : program buffer with
  | ok value after =>
      rw [ran] at overflows
      cases overflows
  | error stop after =>
      rw [ran] at overflows
      rwa [Prog.bind_of_error ran]

theorem store_overflows {α : Type} {buffer : Buffer α} {i : Nat} (outside : buffer.length ≤ i)
    (value : α) : Overflows (store i value buffer) := by
  rw [store, if_neg (Nat.not_lt.mpr outside)]
  rfl

theorem copyString_overflows {text : List UInt8} (nonzero : 0 ∉ text) {old : Buffer UInt8}
    {front : List UInt8} (start : front.length ≤ old.length)
    (full : old.length ≤ (front ++ text).length) :
    Overflows (copyString front.length (text ++ [0]) (written old front)) := by
  induction text generalizing front with
  | nil =>
      rw [List.append_nil] at full
      rw [List.nil_append, copyString]
      apply overflows_bind
      apply store_overflows
      rwa [length_written start]
  | cons c text ih =>
      rw [List.mem_cons, not_or] at nonzero
      rw [List.append_cons] at full
      have behind : front.length + 1 = (front ++ [c]).length := by
        rw [List.length_append, List.length_singleton]
      rw [List.cons_append, copyString]
      rcases Nat.lt_or_ge front.length old.length with room | outside
      · rw [Prog.bind_of_ok (store_written room c), if_neg (Ne.symm nonzero.1), behind]
        exact ih nonzero.2 (behind ▸ room) full
      · apply overflows_bind
        apply store_overflows
        rwa [length_written start]

/-- At the end of a string `strcat` has nothing to skip. -/
theorem strcat_at_end {old : Buffer UInt8} {front : List UInt8} (room : front.length < old.length)
    (src : List UInt8) :
    strcat front.length src (written old (front ++ [0])) =
      copyString front.length src (written (old.set front.length (some 0)) front) := by
  have rest : (written old (front ++ [0])).drop front.length =
      ([] ++ [0] : List UInt8).map some ++ old.drop (front.length + 1) := by
    rw [written_snoc, List.drop_left' (List.length_map _)]
    rfl
  rw [strcat, Prog.bind_of_ok (Prog.get_apply _), rest,
    Prog.bind_of_ok (strlen_append List.not_mem_nil _ _), List.length_nil, Nat.add_zero,
    written_snoc_eq_set room]

/-! ## Appending at a place -/

/-- The array holds a string at its front; the program gets the place of its
end and returns the new one. -/
structure Appends (program : Nat → Prog (Buffer UInt8) Nat) (text : List UInt8) : Prop where
  fits : ∀ {old : Buffer UInt8} {front : List UInt8}, (front ++ text).length < old.length →
    program front.length (written old (front ++ [0])) =
      .ok (front ++ text).length (written old (front ++ text ++ [0]))
  overflows : ∀ {old : Buffer UInt8} {front : List UInt8}, front.length < old.length →
    old.length ≤ (front ++ text).length →
    Overflows (program front.length (written old (front ++ [0])))

namespace Appends

theorem nothing : Appends (fun buf => pure buf) [] where
  fits _ := by rw [List.append_nil]; rfl
  overflows room full := by
    rw [List.append_nil] at full
    omega

theorem bind {first second : Nat → Prog (Buffer UInt8) Nat} {text rest : List UInt8}
    (one : Appends first text) (two : Appends second rest) :
    Appends (fun buf => first buf >>= second) (text ++ rest) where
  fits := by
    intro old front room
    rw [← List.append_assoc] at room ⊢
    have enough : (front ++ text).length < old.length := by
      rw [List.length_append] at room
      omega
    rw [Prog.bind_of_ok (one.fits enough), two.fits room]
  overflows := by
    intro old front start full
    rw [← List.append_assoc] at full
    rcases Nat.lt_or_ge (front ++ text).length old.length with enough | outside
    · rw [Prog.bind_of_ok (one.fits enough)]
      exact two.overflows enough full
    · exact overflows_bind (one.overflows start outside)

theorem strcat {text : List UInt8} (nonzero : 0 ∉ text) :
    Appends (fun buf => do
      strcat buf (text ++ [0])
      let len ← strlen ((text ++ [0]).map some)
      pure (buf + len)) text where
  fits := by
    intro old front room
    have start : front.length < old.length := by
      rw [List.length_append] at room
      omega
    have inside : front.length < (front ++ text ++ [0]).length := by
      simp only [List.length_append, List.length_singleton]
      omega
    have copied : copyString front.length (text ++ [0])
          (written (old.set front.length (some 0)) front) =
        .ok () (written (old.set front.length (some 0)) (front ++ text ++ [0])) :=
      copyString_fits nonzero (by rwa [List.length_set])
    have len := strlen_append nonzero [] (written old (front ++ text ++ [0]))
    rw [List.append_nil] at len
    rw [Prog.bind_of_ok ((strcat_at_end start _).trans copied), written_set inside,
      Prog.bind_of_ok len, List.length_append]
    rfl
  overflows := by
    intro old front start full
    apply overflows_bind
    rw [strcat_at_end start]
    apply copyString_overflows nonzero
    · rw [List.length_set]
      exact Nat.le_of_lt start
    · rwa [List.length_set]

/-! An empty string at the front. -/

variable {program : Nat → Prog (Buffer UInt8) Nat} {text : List UInt8} {old : Buffer UInt8}

theorem store_start (nonempty : 0 < old.length) : store 0 0 old = .ok () (written old [0]) :=
  @store_written UInt8 old [] nonempty 0

theorem fits_start (appends : Appends program text) (room : text.length < old.length) :
    program 0 (written old [0]) = .ok text.length (written old (text ++ [0])) :=
  @fits program text appends old [] room

theorem overflows_start (appends : Appends program text) (nonempty : 0 < old.length)
    (full : old.length ≤ text.length) : Overflows (program 0 (written old [0])) :=
  @overflows program text appends old [] nonempty full

end Appends

end Cs140e.Library
