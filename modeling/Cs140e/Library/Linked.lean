import Mathlib.Data.List.Nodup

/-!
# Lists made of pointers to the next element

A chain is the list of the elements that the next pointers lead through.  Chains
share one store of pointers, and a chain is kept by every change to the pointers
of other elements.
-/

namespace Cs140e.Library.Linked

variable {α : Type} {next next' : α → α} {null start stop : α} {l : List α}

/-- The pointers lead from `start` through the elements of the list to `stop`. -/
def Segment (next : α → α) : α → List α → α → Prop
  | start, [], stop => start = stop
  | start, e :: rest, stop => start = e ∧ Segment next (next e) rest stop

theorem Segment.congr (segment : Segment next start l stop) (same : ∀ e ∈ l, next' e = next e) :
    Segment next' start l stop := by
  induction l generalizing start with
  | nil => exact segment
  | cons e rest ih =>
      obtain ⟨here, later⟩ := segment
      obtain ⟨head, tail⟩ := List.forall_mem_cons.mp same
      exact ⟨here, head ▸ ih later tail⟩

theorem segment_append (first second : List α) :
    Segment next start (first ++ second) stop ↔
      ∃ middle, Segment next start first middle ∧ Segment next middle second stop := by
  induction first generalizing start with
  | nil =>
      constructor
      · exact fun segment => ⟨start, rfl, segment⟩
      · rintro ⟨middle, rfl, segment⟩
        exact segment
  | cons e rest ih =>
      rw [List.cons_append, Segment, ih]
      constructor
      · rintro ⟨here, middle, left, right⟩
        exact ⟨middle, ⟨here, left⟩, right⟩
      · rintro ⟨middle, ⟨here, left⟩, right⟩
        exact ⟨here, middle, left, right⟩

/-- The list of elements behind a pointer. -/
structure Chain (next : α → α) (null start : α) (l : List α) : Prop where
  segment : Segment next start l null
  named : null ∉ l
  nodup : l.Nodup

namespace Chain

theorem empty (next : α → α) (null : α) : Chain next null null [] :=
  ⟨rfl, List.not_mem_nil, List.nodup_nil⟩

theorem congr (chain : Chain next null start l) (same : ∀ e ∈ l, next' e = next e) :
    Chain next' null start l :=
  ⟨chain.segment.congr same, chain.named, chain.nodup⟩

/-- Only the empty chain begins with the null pointer. -/
theorem start_eq_null_iff (chain : Chain next null start l) : start = null ↔ l = [] := by
  cases l with
  | nil => exact ⟨fun _ => rfl, fun _ => chain.segment⟩
  | cons e rest =>
      refine ⟨fun same => ?_, fun none => (by cases none)⟩
      have here : start = e := chain.segment.1
      exact absurd (here ▸ same ▸ List.mem_cons_self) chain.named

theorem head_eq {e : α} {rest : List α} (chain : Chain next null start (e :: rest)) : start = e :=
  chain.segment.1

theorem pop {e : α} {rest : List α} (chain : Chain next null start (e :: rest)) :
    Chain next null (next e) rest :=
  ⟨chain.segment.2, fun mem => chain.named (List.mem_cons_of_mem e mem), chain.nodup.of_cons⟩

theorem next_last {e : α} {first : List α} (chain : Chain next null start (first ++ [e])) :
    next e = null := by
  obtain ⟨middle, _, here, ended⟩ := (segment_append first [e]).mp chain.segment
  exact here ▸ ended

variable [DecidableEq α]

theorem push (chain : Chain next null start l) {e : α} (named : e ≠ null) (free : e ∉ l) :
    Chain (Function.update next e start) null e (e :: l) where
  segment := by
    refine ⟨rfl, ?_⟩
    rw [Function.update_self]
    exact chain.segment.congr fun c mem =>
      Function.update_of_ne (ne_of_mem_of_not_mem mem free) _ _
  named := by
    rw [List.mem_cons, not_or]
    exact ⟨named.symm, chain.named⟩
  nodup := List.nodup_cons.mpr ⟨free, chain.nodup⟩

/-- A new element behind the element `e`. -/
theorem insert {e new : α} {first second : List α}
    (chain : Chain next null start (first ++ e :: second)) (named : new ≠ null)
    (free : new ∉ first ++ e :: second) :
    Chain (Function.update (Function.update next new (next e)) e new) null start
      (first ++ e :: new :: second) := by
  obtain ⟨middle, left, right⟩ := (segment_append first (e :: second)).mp chain.segment
  obtain ⟨rfl, behind⟩ := right
  have once := (List.nodup_cons.mp (List.nodup_middle.mp chain.nodup)).1
  have differs : new ≠ middle := fun same => free (by rw [same]; simp)
  -- the pointers of all other elements are as before
  have others : ∀ c ∈ first ++ second,
      Function.update (Function.update next new (next middle)) middle new c = next c := by
    intro c mem
    have isOld : c ∈ first ++ middle :: second := by
      rw [List.mem_append, List.mem_cons]
      rcases List.mem_append.mp mem with inFirst | inSecond
      · exact .inl inFirst
      · exact .inr (.inr inSecond)
    rw [Function.update_of_ne (ne_of_mem_of_not_mem mem once),
      Function.update_of_ne (ne_of_mem_of_not_mem isOld free)]
  refine ⟨?_, ?_, ?_⟩
  · refine (segment_append first _).mpr ⟨middle, ?_, rfl, ?_⟩
    · exact left.congr fun c mem => others c (List.mem_append_left _ mem)
    · rw [Function.update_self]
      refine ⟨rfl, ?_⟩
      rw [Function.update_of_ne differs, Function.update_self]
      exact behind.congr fun c mem => others c (List.mem_append_right _ mem)
  · have old := chain.named
    simp only [List.mem_append, List.mem_cons, not_or] at old ⊢
    exact ⟨old.1, old.2.1, named.symm, old.2.2⟩
  · have split : first ++ middle :: new :: second = first ++ [middle] ++ new :: second := by
      rw [List.append_assoc]
      rfl
    have joined : first ++ [middle] ++ second = first ++ middle :: second := by
      rw [List.append_assoc]
      rfl
    rw [split, List.nodup_middle, joined, List.nodup_cons]
    exact ⟨free, chain.nodup⟩

end Chain

end Cs140e.Library.Linked
