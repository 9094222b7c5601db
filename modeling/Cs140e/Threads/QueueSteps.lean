import Cs140e.Threads.Queue

/-!
# The queue operations on lists

What each operation of `Q.h` does to the store of pointers, and what that does
to the list of its queue.
-/

namespace Cs140e.Threads

open Cs140e.Library
open Cs140e.Library.Linked

section

variable {Name : Type}

/-! ## What the operations do -/

theorem load_apply (q : Name) (heap : Heap Name) : load q heap = .ok (heap.queue q) heap := rfl

theorem loadNext_apply {e : Ptr} (named : e ≠ 0) (heap : Heap Name) :
    loadNext e heap = .ok (heap.next e) heap := by
  rw [loadNext, if_neg named]
  rfl

theorem storeNext_apply {e : Ptr} (named : e ≠ 0) (next : Ptr) (heap : Heap Name) :
    storeNext e next heap = .ok () ⟨Function.update heap.next e next, heap.queue⟩ := by
  rw [storeNext, if_neg named]
  rfl

theorem qEmpty_of_head {q : Name} {heap : Heap Name} (named : (heap.queue q).head ≠ 0) :
    qEmpty q heap = .ok false heap := by
  rw [qEmpty, Prog.bind_of_ok (load_apply q heap), if_pos named]
  rfl

theorem qEmpty_of_null {q : Name} {heap : Heap Name} (null : (heap.queue q).head = 0)
    (count : (heap.queue q).cnt = 0) (tail : (heap.queue q).tail = 0) :
    qEmpty q heap = .ok true heap := by
  have counted : qNelem q heap = .ok (heap.queue q).cnt heap := rfl
  rw [qEmpty, Prog.bind_of_ok (load_apply q heap), if_neg (not_not_intro null),
    Prog.bind_of_ok counted, Prog.bind_of_ok (Prog.assertThat_of _ _ (beq_iff_eq.mpr count)),
    Prog.bind_of_ok (load_apply q heap),
    Prog.bind_of_ok (Prog.assertThat_of _ _ (beq_iff_eq.mpr tail))]
  rfl

variable [DecidableEq Name]

theorem store_apply (q : Name) (change : Q → Q) (heap : Heap Name) :
    store q change heap =
      .ok () ⟨heap.next, Function.update heap.queue q (change (heap.queue q))⟩ := rfl

theorem qPop_of_null {q : Name} {heap : Heap Name} (null : (heap.queue q).head = 0)
    (empty : qEmpty q heap = .ok true heap) : qPop q heap = .ok 0 heap := by
  rw [qPop, Prog.bind_of_ok (load_apply q heap)]
  dsimp only
  rw [if_pos null, Prog.bind_of_ok empty, Prog.bind_of_ok (Prog.assertThat_true _ heap)]
  rfl

theorem qPop_of_head {q : Name} {heap : Heap Name} (named : (heap.queue q).head ≠ 0) :
    qPop q heap = .ok (heap.queue q).head ⟨heap.next, Function.update heap.queue q
      { head := heap.next (heap.queue q).head
        tail := if heap.next (heap.queue q).head = 0 then 0 else (heap.queue q).tail
        cnt := (heap.queue q).cnt - 1 }⟩ := by
  rw [qPop, Prog.bind_of_ok (load_apply q heap)]
  dsimp only
  rw [if_neg named, Prog.bind_of_ok (store_apply _ _ _), Prog.bind_of_ok (loadNext_apply named _),
    Prog.bind_of_ok (store_apply _ _ _), Prog.bind_of_ok (load_apply _ _)]
  simp only [Function.update_self, Function.update_idem]
  by_cases last : heap.next (heap.queue q).head = 0
  · rw [if_pos last, if_pos last, Prog.bind_of_ok (store_apply _ _ _)]
    simp only [Function.update_self, Function.update_idem]
    rfl
  · rw [if_neg last, if_neg last]
    rfl

theorem qAppend_of_null {q : Name} {e : Ptr} (named : e ≠ 0) {heap : Heap Name}
    (null : (heap.queue q).tail = 0) :
    qAppend q e heap = .ok () ⟨Function.update heap.next e 0, Function.update heap.queue q
      { head := e, tail := e, cnt := (heap.queue q).cnt + 1 }⟩ := by
  rw [qAppend, Prog.bind_of_ok (storeNext_apply named _ _), Prog.bind_of_ok (store_apply _ _ _),
    Prog.bind_of_ok (load_apply _ _)]
  simp only [Function.update_self]
  rw [if_pos null, store_apply]
  simp only [Function.update_self, Function.update_idem]

theorem qAppend_of_tail {q : Name} {e : Ptr} (named : e ≠ 0) {heap : Heap Name}
    (last : (heap.queue q).tail ≠ 0) :
    qAppend q e heap =
      .ok () ⟨Function.update (Function.update heap.next e 0) (heap.queue q).tail e,
        Function.update heap.queue q
          { head := (heap.queue q).head, tail := e, cnt := (heap.queue q).cnt + 1 }⟩ := by
  rw [qAppend, Prog.bind_of_ok (storeNext_apply named _ _), Prog.bind_of_ok (store_apply _ _ _),
    Prog.bind_of_ok (load_apply _ _)]
  simp only [Function.update_self]
  rw [if_neg last, Prog.bind_of_ok (load_apply _ _)]
  simp only [Function.update_self]
  rw [Prog.bind_of_ok (storeNext_apply last _ _), store_apply]
  simp only [Function.update_self, Function.update_idem]

theorem qPush_apply {q : Name} {e : Ptr} (named : e ≠ 0) (heap : Heap Name) :
    qPush q e heap = .ok () ⟨Function.update heap.next e (heap.queue q).head,
      Function.update heap.queue q
        { head := e
          tail := if (heap.queue q).tail = 0 then e else (heap.queue q).tail
          cnt := (heap.queue q).cnt + 1 }⟩ := by
  rw [qPush, Prog.bind_of_ok (store_apply _ _ _), Prog.bind_of_ok (load_apply _ _),
    Prog.bind_of_ok (storeNext_apply named _ _), Prog.bind_of_ok (store_apply _ _ _),
    Prog.bind_of_ok (load_apply _ _)]
  simp only [Function.update_self, Function.update_idem]
  by_cases null : (heap.queue q).tail = 0
  · rw [if_pos null, if_pos null, store_apply]
    simp only [Function.update_self, Function.update_idem]
  · rw [if_neg null, if_neg null]
    rfl

theorem qInsertAfter_of_inner {q : Name} {e eNew : Ptr} (named : e ≠ 0) (namedNew : eNew ≠ 0)
    {heap : Heap Name} (inner : (heap.queue q).tail ≠ e) :
    qInsertAfter q e eNew heap =
      .ok () ⟨Function.update (Function.update heap.next eNew (heap.next e)) e eNew,
        Function.update heap.queue q
          { heap.queue q with cnt := (heap.queue q).cnt + 1 }⟩ := by
  rw [qInsertAfter, if_neg named, Prog.bind_of_ok (load_apply _ _), if_neg inner,
    Prog.bind_of_ok (store_apply _ _ _), Prog.bind_of_ok (loadNext_apply named _),
    Prog.bind_of_ok (storeNext_apply namedNew _ _), storeNext_apply named]

end

/-! ## What they do to the list of their queue -/

/-- There are fewer elements than pointers. -/
theorem length_lt_of_chain {next : Ptr → Ptr} {start : Ptr} {l : List Ptr}
    (chain : Chain next 0 start l) : l.length < 2 ^ 32 := by
  have distinct : ((0 :: l).map UInt32.toNat).Nodup :=
    (List.nodup_cons.mpr ⟨chain.named, chain.nodup⟩).map
      fun _ _ same => UInt32.toNat_inj.mp same
  have bounded : (0 :: l).map UInt32.toNat ⊆ List.range (2 ^ 32) := by
    intro n mem
    obtain ⟨e, _, rfl⟩ := List.mem_map.mp mem
    exact List.mem_range.mpr e.toNat_lt
  have few := (distinct.subperm bounded).length_le
  rw [List.length_map, List.length_cons, List.length_range] at few
  exact few

namespace Holds

variable {next : Ptr → Ptr} {queue : Q} {l : List Ptr}

theorem empty (next : Ptr → Ptr) : Holds next ⟨0, 0, 0⟩ [] := ⟨.empty next 0, rfl, rfl⟩

/-- The tail is null exactly when the queue is empty. -/
theorem tail_eq_zero_iff (holds : Holds next queue l) : queue.tail = 0 ↔ l = [] := by
  rw [holds.tail_eq]
  cases last : l.getLast? with
  | none =>
      exact ⟨fun _ => List.getLast?_eq_none_iff.mp last, fun _ => rfl⟩
  | some e =>
      have mem := List.mem_of_getLast? last
      rw [Option.getD_some]
      constructor
      · rintro rfl
        exact absurd mem holds.chain.named
      · rintro rfl
        cases mem

theorem congr {next' : Ptr → Ptr} (holds : Holds next queue l)
    (same : ∀ e ∈ l, next' e = next e) : Holds next' queue l :=
  ⟨holds.chain.congr same, holds.tail_eq, holds.cnt_eq⟩

/-- Counting a new element does not wrap around. -/
theorem cnt_succ (holds : Holds next queue l) {next' : Ptr → Ptr} {start : Ptr}
    {bigger : List Ptr} (chain : Chain next' 0 start bigger)
    (size : bigger.length = l.length + 1) : (queue.cnt + 1).toNat = bigger.length := by
  have small := length_lt_of_chain chain
  rw [size] at small ⊢
  rw [UInt32.toNat_add, holds.cnt_eq]
  exact Nat.mod_eq_of_lt small

theorem pop {e : Ptr} {rest : List Ptr} (holds : Holds next queue (e :: rest)) :
    Holds next
      { head := next queue.head
        tail := if next queue.head = 0 then 0 else queue.tail
        cnt := queue.cnt - 1 } rest := by
  have head := holds.chain.head_eq
  have chain := holds.chain.pop
  refine ⟨head ▸ chain, ?_, ?_⟩
  · rw [head]
    cases rest with
    | nil => exact if_pos (chain.start_eq_null_iff.mpr rfl)
    | cons c rest =>
        dsimp only
        rw [if_neg (fun null => (by cases chain.start_eq_null_iff.mp null)), holds.tail_eq]
        rfl
  · have count := holds.cnt_eq
    rw [List.length_cons] at count
    have one : (1 : UInt32) ≤ queue.cnt := by
      rw [UInt32.le_iff_toNat_le, count]
      exact Nat.succ_le_succ (Nat.zero_le _)
    dsimp only
    rw [UInt32.toNat_sub_of_le _ _ one, count]
    rfl

variable {e : Ptr}

theorem push (holds : Holds next queue l) (named : e ≠ 0) (free : e ∉ l) :
    Holds (Function.update next e queue.head)
      { head := e
        tail := if queue.tail = 0 then e else queue.tail
        cnt := queue.cnt + 1 } (e :: l) := by
  have chain := holds.chain.push named free
  refine ⟨chain, ?_, ?_⟩
  · dsimp only
    by_cases null : queue.tail = 0
    · rw [if_pos null, holds.tail_eq_zero_iff.mp null]
      rfl
    · have some : l ≠ [] := fun none => null (holds.tail_eq_zero_iff.mpr none)
      rw [if_neg null, holds.tail_eq, List.getLast?_cons_of_ne_nil some]
  · exact holds.cnt_succ chain rfl

/-- The first element of an empty queue. -/
theorem append_nil (holds : Holds next queue []) (named : e ≠ 0) :
    Holds (Function.update next e 0) { head := e, tail := e, cnt := queue.cnt + 1 } [e] := by
  have chain := (Chain.empty next 0).push named List.not_mem_nil
  exact ⟨chain, rfl, holds.cnt_succ chain rfl⟩

/-- A new element behind an element that is not the last one. -/
theorem insert {first second : List Ptr} {new : Ptr} (inner : second ≠ [])
    (holds : Holds next queue (first ++ e :: second)) (named : new ≠ 0)
    (free : new ∉ first ++ e :: second) :
    Holds (Function.update (Function.update next new (next e)) e new)
      { queue with cnt := queue.cnt + 1 } (first ++ e :: new :: second) := by
  have chain := holds.chain.insert named free
  refine ⟨chain, ?_, ?_⟩
  · obtain ⟨c, rest, rfl⟩ := List.exists_cons_of_ne_nil inner
    dsimp only
    rw [holds.tail_eq, List.getLast?_append, List.getLast?_append, List.getLast?_cons_cons,
      List.getLast?_cons_cons, List.getLast?_cons_cons]
  · exact holds.cnt_succ chain (by simp only [List.length_append, List.length_cons]; omega)

theorem tail_snoc {first : List Ptr} (holds : Holds next queue (first ++ [e])) :
    queue.tail = e := by
  rw [holds.tail_eq, List.getLast?_concat, Option.getD_some]

/-- The tail is the element with nothing behind it. -/
theorem tail_eq_iff {first second : List Ptr} (holds : Holds next queue (first ++ e :: second))
    (once : e ∉ first ++ second) : queue.tail = e ↔ second = [] := by
  constructor
  · intro last
    by_contra more
    obtain ⟨init, c, rfl⟩ := (List.eq_nil_or_concat' second).resolve_left more
    rw [← List.cons_append, ← List.append_assoc] at holds
    have same : c = e := holds.tail_snoc.symm.trans last
    exact once (List.mem_append_right _ (List.mem_append_right _ (same ▸ List.mem_cons_self)))
  · rintro rfl
    exact holds.tail_snoc

/-- A new element behind the last one. -/
theorem append_snoc {first : List Ptr} {new : Ptr} (holds : Holds next queue (first ++ [e]))
    (named : new ≠ 0) (free : new ∉ first ++ [e]) :
    Holds (Function.update (Function.update next new 0) e new)
      { head := queue.head, tail := new, cnt := queue.cnt + 1 } (first ++ [e] ++ [new]) := by
  have chain := holds.chain.insert named free
  rw [holds.chain.next_last] at chain
  rw [List.append_assoc]
  refine ⟨chain, ?_, holds.cnt_succ chain ?_⟩
  · rw [List.getLast?_append]
    rfl
  · rw [← List.append_assoc, List.length_append]
    rfl

end Holds

end Cs140e.Threads
