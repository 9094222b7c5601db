import Cs140e.Library.Prog

/-!
# Readers and the end of their items

What is left of a sequence of items settles how a reader ends.  Either it
begins with something to read, or it runs dry: it ends where the reader does
not notice and goes on without a value.  On everything else the reader reports
an error.
-/

namespace Cs140e.Library

variable {σ ι α β : Type}

/-- How a reader ends.  `reads` are the values it may return with the items they
leave, `dry` says that the items run out unnoticed. -/
inductive Reading (view : σ → List ι → Prop) (reads : α → List ι → Prop) (dry : Prop) :
    Outcome σ α → Prop where
  | returned {value : α} {after : σ} {left : List ι} (here : view after left)
      (yes : reads value left) (only : ∀ other rest, reads other rest → other = value ∧ rest = left)
      (wet : ¬ dry) : Reading view reads dry (.ok value after)
  | starved {what : String} {after : σ} (yes : dry) (none : ∀ value rest, ¬ reads value rest) :
      Reading view reads dry (.error (.undefined what) after)
  | reported {message : String} {after : σ} (none : ∀ value rest, ¬ reads value rest)
      (wet : ¬ dry) : Reading view reads dry (.error (.panic message) after)

namespace Reading

variable {view : σ → List ι → Prop}

section

variable {reads : α → List ι → Prop} {dry : Prop} {outcome : Outcome σ α}

theorem takes (reading : Reading view reads dry outcome) {value : α} {left : List ι}
    (yes : reads value left) : ∃ after, outcome = .ok value after ∧ view after left := by
  cases reading with
  | returned here _ only _ =>
      obtain ⟨rfl, rfl⟩ := only value left yes
      exact ⟨_, rfl, here⟩
  | starved _ none => exact absurd yes (none value left)
  | reported none _ => exact absurd yes (none value left)

theorem starves (reading : Reading view reads dry outcome) (yes : dry) :
    ∃ what after, outcome = .error (.undefined what) after := by
  cases reading with
  | returned _ _ _ wet => exact absurd yes wet
  | starved _ _ => exact ⟨_, _, rfl⟩
  | reported _ wet => exact absurd yes wet

theorem reports (reading : Reading view reads dry outcome)
    (none : ∀ value left, ¬ reads value left) (wet : ¬ dry) :
    ∃ message after, outcome = .error (.panic message) after := by
  cases reading with
  | returned _ yes _ _ => exact absurd yes (none _ _)
  | starved yes _ => exact absurd yes wet
  | reported _ _ => exact ⟨_, _, rfl⟩

theorem of_iff {reads' : α → List ι → Prop} {dry' : Prop}
    (reading : Reading view reads dry outcome)
    (same : ∀ value left, reads value left ↔ reads' value left) (sameDry : dry ↔ dry') :
    Reading view reads' dry' outcome := by
  cases reading with
  | returned here yes only wet =>
      exact .returned here ((same _ _).mp yes) (fun other rest holds =>
        only other rest ((same _ _).mpr holds)) (fun dry => wet (sameDry.mpr dry))
  | starved yes none =>
      exact .starved (sameDry.mp yes) fun value rest holds =>
        none _ _ ((same value rest).mpr holds)
  | reported none wet =>
      exact .reported (fun value rest holds => none _ _ ((same value rest).mpr holds))
        (fun dry => wet (sameDry.mpr dry))

end

theorem pure {state : σ} {items : List ι} (here : view state items) (value : α) :
    Reading view (fun other left => other = value ∧ left = items) False
      ((Pure.pure value : Prog σ α) state) :=
  .returned here ⟨rfl, rfl⟩ (fun _ _ same => same) not_false

/-- Changing the state takes nothing when the items are still there. -/
theorem modify {state : σ} {items : List ι} (change : σ → σ) (here : view (change state) items) :
    Reading view (fun _ left => left = items) False
      ((MonadState.modifyGet fun state => (PUnit.unit, change state) : Prog σ PUnit) state) :=
  .returned here rfl (fun _ _ same => ⟨rfl, same⟩) not_false

theorem set {state next : σ} {items : List ι} (here : view next items) :
    Reading view (fun _ left => left = items) False
      ((MonadStateOf.set next : Prog σ PUnit) state) :=
  .returned here rfl (fun _ _ same => ⟨rfl, same⟩) not_false

theorem assertThat {state : σ} {items : List ι} (here : view state items) (holds : Bool)
    (message : String) :
    Reading view (fun _ left => holds = true ∧ left = items) False
      ((Prog.assertThat holds message : Prog σ Unit) state) := by
  cases holds with
  | true => exact .returned here ⟨rfl, rfl⟩ (fun _ _ same => ⟨rfl, same.2⟩) not_false
  | false => exact .reported (fun _ _ both => Bool.false_ne_true both.1) not_false

/-- A check that takes nothing and reports when it finds something wrong. -/
theorem check {state : σ} {items : List ι} (here : view state items) (wrong : Prop)
    [Decidable wrong] (message : String) :
    Reading view (fun _ left => ¬ wrong ∧ left = items) False
      ((if wrong then throw (.panic message) else Pure.pure () : Prog σ Unit) state) := by
  by_cases verdict : wrong
  · rw [if_pos verdict]
    exact .reported (fun _ _ both => both.1 verdict) not_false
  · rw [if_neg verdict]
    exact .returned here ⟨verdict, rfl⟩ (fun _ _ both => ⟨rfl, both.2⟩) not_false

theorem checkThen {reads : β → List ι → Prop} {dry : Prop} {state : σ} (wrong : Prop)
    [Decidable wrong] (message : String) {next : PUnit → Prog σ β}
    (rest : ¬ wrong → Reading view reads dry (next ⟨⟩ state)) :
    Reading view (fun value left => ¬ wrong ∧ reads value left) (¬ wrong ∧ dry)
      ((if wrong then throw (.panic message) >>= next else next ⟨⟩ : Prog σ β) state) := by
  by_cases verdict : wrong
  · rw [if_pos verdict]
    exact .reported (fun _ _ both => both.1 verdict) fun both => both.1 verdict
  · rw [if_neg verdict]
    refine (rest verdict).of_iff (fun value left => ?_) ?_
    · exact (and_iff_right verdict).symm
    · exact (and_iff_right verdict).symm

/-- What the first part reads is read first, and either part may run dry. -/
theorem bind {reads : α → List ι → Prop} {dry : Prop} {readsThen : α → List ι → β → List ι → Prop}
    {dryThen : α → List ι → Prop} {program : Prog σ α} {next : α → Prog σ β} {state : σ}
    (first : Reading view reads dry (program state))
    (rest : ∀ value items after, reads value items → view after items →
      Reading view (readsThen value items) (dryThen value items) (next value after)) :
    Reading view (fun result left => ∃ value items, reads value items ∧
        readsThen value items result left)
      (dry ∨ ∃ value items, reads value items ∧ dryThen value items)
      ((program >>= next) state) := by
  generalize ran : program state = outcome at first
  cases first with
  | @returned value after items here yes only wet =>
      rw [Prog.bind_of_ok ran]
      refine (rest value items after yes here).of_iff (fun result left => ?_) ?_
      · constructor
        · exact fun holds => ⟨value, items, yes, holds⟩
        · rintro ⟨other, others, reads, holds⟩
          obtain ⟨rfl, rfl⟩ := only other others reads
          exact holds
      · constructor
        · exact fun holds => .inr ⟨value, items, yes, holds⟩
        · rintro (holds | ⟨other, others, reads, holds⟩)
          · exact absurd holds wet
          · obtain ⟨rfl, rfl⟩ := only other others reads
            exact holds
  | starved yes none =>
      rw [Prog.bind_of_error ran]
      exact .starved (.inl yes) fun result left ⟨value, items, reads, _⟩ => none value items reads
  | reported none wet =>
      rw [Prog.bind_of_error ran]
      refine .reported (fun result left ⟨value, items, reads, _⟩ => none value items reads) ?_
      rintro (holds | ⟨value, items, reads, _⟩)
      · exact wet holds
      · exact none value items reads

/-- The same for a first part that returns an option, and always a value in it. -/
theorem bind_some {γ : Type} {reads : γ → List ι → Prop} {dry : Prop}
    {readsThen : γ → List ι → β → List ι → Prop} {dryThen : γ → List ι → Prop}
    {program : Prog σ (Option γ)} {next : Option γ → Prog σ β} {state : σ}
    (first : Reading view (fun result left => ∃ value, result = some value ∧ reads value left) dry
      (program state))
    (rest : ∀ value items after, reads value items → view after items →
      Reading view (readsThen value items) (dryThen value items) (next (some value) after)) :
    Reading view (fun result left => ∃ value items, reads value items ∧
        readsThen value items result left)
      (dry ∨ ∃ value items, reads value items ∧ dryThen value items)
      ((program >>= next) state) := by
  have rest' : ∀ option items after, (∃ value, option = some value ∧ reads value items) →
      view after items →
      Reading view (fun result left => ∃ value, option = some value ∧
          readsThen value items result left)
        (∃ value, option = some value ∧ dryThen value items) (next option after) := by
    rintro _ items after ⟨value, rfl, holds⟩ here
    exact (rest value items after holds here).of_iff (fun result left => by simp) (by simp)
  refine (first.bind rest').of_iff (fun result left => ?_) (or_congr_right ?_)
  · constructor
    · rintro ⟨_, items, ⟨value, rfl, holds⟩, _, same, then_⟩
      injection same with same
      subst same
      exact ⟨value, items, holds, then_⟩
    · rintro ⟨value, items, holds, then_⟩
      exact ⟨some value, items, ⟨value, rfl, holds⟩, value, rfl, then_⟩
  · constructor
    · rintro ⟨_, items, ⟨value, rfl, holds⟩, _, same, then_⟩
      injection same with same
      subst same
      exact ⟨value, items, holds, then_⟩
    · rintro ⟨value, items, holds, then_⟩
      exact ⟨some value, items, ⟨value, rfl, holds⟩, value, rfl, then_⟩

end Reading

end Cs140e.Library
