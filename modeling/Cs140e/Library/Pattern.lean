import Mathlib.Data.List.Basic

/-!
# Patterns of characters and numbers

A pattern is a list of items that are read off a text one after the other:
single characters, numerals, and spaces that stand for nothing.  Blanks are
allowed before a character and a numeral.  A text is accepted, or a first item
does not match it, or it ends too early to tell.
-/

namespace Cs140e.Library

/-- The characters that are skipped, those of numerals, and what a numeral stands for. -/
structure Alphabet (ι ν : Type) where
  blank : ι → Bool
  digit : ι → Bool
  number : List ι → ν

inductive Item (ι : Type) where
  | char (c : ι)
  | space
  | number
  deriving DecidableEq, Repr

namespace Pattern

variable {ι ν : Type} {A : Alphabet ι ν}

/-! ## One item -/

/-- The item matches the front of the text and leaves the rest. -/
inductive Matches (A : Alphabet ι ν) : Item ι → List ι → List ν → List ι → Prop where
  | space (text : List ι) : Matches A .space text [] text
  | char {c : ι} {blanks : List ι} (all : ∀ b ∈ blanks, A.blank b = true) (rest : List ι) :
      Matches A (.char c) (blanks ++ c :: rest) [] rest
  | number {blanks numeral : List ι} {d : ι} (all : ∀ b ∈ blanks, A.blank b = true)
      (digits : ∀ c ∈ numeral, A.digit c = true) (nonempty : numeral ≠ [])
      (stop : A.digit d = false) (rest : List ι) :
      Matches A .number (blanks ++ (numeral ++ d :: rest)) [A.number numeral] (d :: rest)

/-- The item does not match, whatever comes later. -/
inductive Fails (A : Alphabet ι ν) : Item ι → List ι → Prop where
  | char {c d : ι} {blanks : List ι} (all : ∀ b ∈ blanks, A.blank b = true)
      (other : A.blank d = false) (differs : d ≠ c) (rest : List ι) :
      Fails A (.char c) (blanks ++ d :: rest)
  | number {d : ι} {blanks : List ι} (all : ∀ b ∈ blanks, A.blank b = true)
      (other : A.blank d = false) (stop : A.digit d = false) (rest : List ι) :
      Fails A .number (blanks ++ d :: rest)

/-- The text ends inside of the item. -/
inductive Waits (A : Alphabet ι ν) : Item ι → List ι → Prop where
  | char (c : ι) {blanks : List ι} (all : ∀ b ∈ blanks, A.blank b = true) :
      Waits A (.char c) blanks
  | number {blanks numeral : List ι} (all : ∀ b ∈ blanks, A.blank b = true)
      (digits : ∀ c ∈ numeral, A.digit c = true) : Waits A .number (blanks ++ numeral)

/-- Blanks, and then the end or something else. -/
theorem exists_blanks (A : Alphabet ι ν) (text : List ι) :
    ∃ blanks rest, text = blanks ++ rest ∧ (∀ b ∈ blanks, A.blank b = true) ∧
      ∀ d tail, rest = d :: tail → A.blank d = false := by
  induction text with
  | nil =>
      refine ⟨[], [], rfl, fun _ none => absurd none List.not_mem_nil, ?_⟩
      intro d tail none
      cases none
  | cons c text ih =>
      cases blank : A.blank c with
      | false =>
          refine ⟨[], c :: text, rfl, fun _ none => absurd none List.not_mem_nil, ?_⟩
          intro d tail same
          cases same
          exact blank
      | true =>
          obtain ⟨blanks, rest, rfl, all, other⟩ := ih
          refine ⟨c :: blanks, rest, rfl, ?_, other⟩
          intro b mem
          rcases List.mem_cons.mp mem with rfl | mem
          · exact blank
          · exact all b mem

theorem exists_numeral (A : Alphabet ι ν) (text : List ι) :
    ∃ numeral rest, text = numeral ++ rest ∧ (∀ c ∈ numeral, A.digit c = true) ∧
      ∀ d tail, rest = d :: tail → A.digit d = false :=
  exists_blanks ⟨A.digit, A.digit, A.number⟩ text

variable [DecidableEq ι]

/-- One of the three is the case. -/
theorem takes_or_fails_or_waits (A : Alphabet ι ν) (item : Item ι) (text : List ι) :
    (∃ values rest, Matches A item text values rest) ∨ Fails A item text ∨ Waits A item text := by
  cases item with
  | space => exact .inl ⟨[], text, .space text⟩
  | char c =>
      obtain ⟨blanks, rest, rfl, all, other⟩ := exists_blanks A text
      cases rest with
      | nil =>
          rw [List.append_nil]
          exact .inr (.inr (.char c all))
      | cons d rest =>
          by_cases same : d = c
          · subst same
            exact .inl ⟨[], rest, .char all rest⟩
          · exact .inr (.inl (.char all (other d rest rfl) same rest))
  | number =>
      obtain ⟨blanks, rest, rfl, all, other⟩ := exists_blanks A text
      obtain ⟨numeral, rest, rfl, digits, stop⟩ := exists_numeral A rest
      cases rest with
      | nil =>
          rw [List.append_nil]
          exact .inr (.inr (.number all digits))
      | cons d rest =>
          cases numeral with
          | nil =>
              exact .inr (.inl (.number all (other d rest rfl) (stop d rest rfl) rest))
          | cons c numeral =>
              exact .inl ⟨_, _, .number all digits (List.cons_ne_nil c numeral)
                (stop d rest rfl) rest⟩

/-! ## A list of items -/

/-- All items match, with these numbers, and this is left. -/
inductive Accepts (A : Alphabet ι ν) : List (Item ι) → List ι → List ν → List ι → Prop where
  | nil (text : List ι) : Accepts A [] text [] text
  | cons {item : Item ι} {items : List (Item ι)} {text middle last : List ι}
      {values more : List ν} (first : Matches A item text values middle)
      (rest : Accepts A items middle more last) :
      Accepts A (item :: items) text (values ++ more) last

/-- The item with this number is the first one that does not match, and this is
what it is tried on. -/
inductive FailsAt (A : Alphabet ι ν) : List (Item ι) → List ι → Nat → List ι → Prop where
  | here {item : Item ι} (items : List (Item ι)) {text : List ι} (fails : Fails A item text) :
      FailsAt A (item :: items) text 0 text
  | later {item : Item ι} {items : List (Item ι)} {text middle left : List ι} {values : List ν}
      {k : Nat} (first : Matches A item text values middle) (rest : FailsAt A items middle k left) :
      FailsAt A (item :: items) text (k + 1) left

/-- The text ends before it is known whether all items match. -/
inductive WaitsIn (A : Alphabet ι ν) : List (Item ι) → List ι → Prop where
  | here {item : Item ι} (items : List (Item ι)) {text : List ι} (waits : Waits A item text) :
      WaitsIn A (item :: items) text
  | later {item : Item ι} {items : List (Item ι)} {text middle : List ι} {values : List ν}
      (first : Matches A item text values middle) (rest : WaitsIn A items middle) :
      WaitsIn A (item :: items) text

theorem accepts_or_failsAt_or_waitsIn (A : Alphabet ι ν) (items : List (Item ι))
    (text : List ι) :
    (∃ values rest, Accepts A items text values rest) ∨
      (∃ k left, FailsAt A items text k left) ∨ WaitsIn A items text := by
  induction items generalizing text with
  | nil => exact .inl ⟨[], text, .nil text⟩
  | cons item items ih =>
      obtain ⟨values, middle, first⟩ | fails | waits := takes_or_fails_or_waits A item text
      · obtain ⟨more, last, rest⟩ | ⟨k, left, rest⟩ | rest := ih middle
        · exact .inl ⟨_, last, .cons first rest⟩
        · exact .inr (.inl ⟨k + 1, left, .later first rest⟩)
        · exact .inr (.inr (.later first rest))
      · exact .inr (.inl ⟨0, text, .here items fails⟩)
      · exact .inr (.inr (.here items waits))

/-! ## Texts that no item but a space matches -/

/-- No blank, no digit and none of the characters of these items comes first. -/
def Stuck (A : Alphabet ι ν) (items : List (Item ι)) (text : List ι) : Prop :=
  ∀ d tail, text = d :: tail → A.blank d = false ∧ A.digit d = false ∧ .char d ∉ items

omit [DecidableEq ι]

theorem Stuck.tail {item : Item ι} {items : List (Item ι)} {text : List ι}
    (stuck : Stuck A (item :: items) text) : Stuck A items text := by
  intro d tail same
  obtain ⟨blank, digit, none⟩ := stuck d tail same
  exact ⟨blank, digit, fun mem => none (List.mem_cons_of_mem _ mem)⟩

/-- Blanks in front of something are no blanks when the text is stuck. -/
theorem Stuck.no_blanks {items : List (Item ι)} {blanks rest : List ι} {d : ι}
    (stuck : Stuck A items (blanks ++ d :: rest)) (all : ∀ b ∈ blanks, A.blank b = true) :
    blanks = [] := by
  cases blanks with
  | nil => rfl
  | cons b blanks =>
      obtain ⟨other, _⟩ := stuck b _ rfl
      rw [all b List.mem_cons_self] at other
      cases other

theorem Matches.of_stuck {item : Item ι} {items : List (Item ι)} {text rest : List ι}
    {values : List ν} (takes : Matches A item text values rest)
    (stuck : Stuck A (item :: items) text) : item = .space ∧ rest = text := by
  cases takes with
  | space => exact ⟨rfl, rfl⟩
  | char all rest =>
      cases stuck.no_blanks all
      exact absurd List.mem_cons_self (stuck _ _ rfl).2.2
  | @number blanks numeral d all digits nonempty stop rest =>
      obtain ⟨c, more, rfl⟩ := List.exists_cons_of_ne_nil nonempty
      cases stuck.no_blanks all
      have other := (stuck c _ rfl).2.1
      rw [digits c List.mem_cons_self] at other
      cases other

/-- Such a text is accepted only by spaces. -/
theorem Accepts.of_stuck {items : List (Item ι)} {text rest : List ι} {values : List ν}
    (accepts : Accepts A items text values rest) (stuck : Stuck A items text) :
    ∀ item ∈ items, item = .space := by
  induction accepts with
  | nil => exact fun _ none => absurd none List.not_mem_nil
  | cons first rest ih =>
      obtain ⟨rfl, rfl⟩ := first.of_stuck stuck
      intro item mem
      rcases List.mem_cons.mp mem with rfl | mem
      · rfl
      · exact ih stuck.tail item mem

/-- The item that fails is tried on the whole text, behind nothing but spaces. -/
theorem FailsAt.of_stuck {items : List (Item ι)} {text left : List ι} {k : Nat}
    (fails : FailsAt A items text k left) (stuck : Stuck A items text) :
    left = text ∧ ∀ j < k, items[j]? = some .space := by
  induction fails with
  | here => exact ⟨rfl, fun j none => absurd none (Nat.not_lt_zero j)⟩
  | later first rest ih =>
      obtain ⟨rfl, rfl⟩ := first.of_stuck stuck
      obtain ⟨same, spaces⟩ := ih stuck.tail
      refine ⟨same, fun j below => ?_⟩
      cases j with
      | zero => rfl
      | succ j => exact spaces j (Nat.lt_of_succ_lt_succ below)

theorem FailsAt.left_ne_nil {items : List (Item ι)} {text left : List ι} {k : Nat}
    (fails : FailsAt A items text k left) : left ≠ [] := by
  induction fails with
  | here items fails =>
      cases fails with
      | char => exact List.append_ne_nil_of_right_ne_nil _ (List.cons_ne_nil _ _)
      | number => exact List.append_ne_nil_of_right_ne_nil _ (List.cons_ne_nil _ _)
  | later first rest ih => exact ih

theorem Matches.suffix {item : Item ι} {text rest : List ι} {values : List ν}
    (takes : Matches A item text values rest) : rest <:+ text := by
  cases takes with
  | space => exact List.suffix_refl _
  | char all rest => exact (List.suffix_cons _ _).trans (List.suffix_append _ _)
  | number all digits nonempty stop rest =>
      exact (List.suffix_append _ _).trans (List.suffix_append _ _)

theorem FailsAt.suffix {items : List (Item ι)} {text left : List ι} {k : Nat}
    (fails : FailsAt A items text k left) : left <:+ text := by
  induction fails with
  | here => exact List.suffix_refl _
  | later first rest ih => exact ih.trans first.suffix

/-- An item fails only when there is something to look at. -/
theorem FailsAt.text_ne_nil {items : List (Item ι)} {text left : List ι} {k : Nat}
    (fails : FailsAt A items text k left) : text ≠ [] := by
  rintro rfl
  have stuck : Stuck A items [] := fun d tail none => by cases none
  exact fails.left_ne_nil (fails.of_stuck stuck).1

/-- No item waits on a text that is stuck at a character. -/
theorem WaitsIn.not_stuck {items : List (Item ι)} {d : ι} {tail : List ι}
    (waits : WaitsIn A items (d :: tail)) : ¬ Stuck A items (d :: tail) := by
  generalize same : d :: tail = text at waits
  induction waits with
  | here items waits =>
      intro stuck
      obtain ⟨blank, digit, _⟩ := stuck d tail same.symm
      cases waits with
      | char c all =>
          rw [all d (by rw [← same]; exact List.mem_cons_self)] at blank
          cases blank
      | @number blanks numeral all digits =>
          cases blanks with
          | nil =>
              rw [digits d (by rw [List.nil_append] at same; rw [← same]; exact List.mem_cons_self)]
                at digit
              cases digit
          | cons b blanks =>
              cases same
              rw [all d List.mem_cons_self] at blank
              cases blank
  | later first rest ih =>
      intro stuck
      obtain ⟨rfl, rfl⟩ := first.of_stuck stuck
      exact ih same stuck.tail

end Pattern

end Cs140e.Library
