import Cs140e.Threads.QueueSteps

/-!
# The queues refine lists

Every operation keeps the queues apart, so that what it does to one of them is
what the list operation does, and the others stay as they are.
-/

namespace Cs140e.Threads

open Cs140e.Library
open Cs140e.Library.Linked

variable {Name : Type}

theorem insertBehind_append {e new : Ptr} {first : List Ptr} (notBefore : e ∉ first)
    (second : List Ptr) :
    insertBehind e new (first ++ e :: second) = first ++ e :: new :: second := by
  induction first with
  | nil => exact if_pos rfl
  | cons c first ih =>
      obtain ⟨differs, notBefore⟩ := not_or.mp (List.mem_cons.not.mp notBefore)
      rw [List.cons_append, insertBehind, if_neg (Ne.symm differs), ih notBefore]
      rfl

namespace Represents

variable {heap : Heap Name} {lists : Lists Name}

theorem start (next : Ptr → Ptr) :
    Represents ⟨next, fun _ : Name => ⟨0, 0, 0⟩⟩ (fun _ => []) :=
  ⟨fun _ => .empty next, fun _ _ _ mem => absurd mem List.not_mem_nil⟩

/-- The pointer of a free element may change. -/
theorem frame_free {e : Ptr} (free : Free e lists) (next : Ptr → Ptr) (value : Ptr) (q : Name) :
    ∀ c ∈ lists q, Function.update next e value c = next c :=
  fun _ mem => Function.update_of_ne (ne_of_mem_of_not_mem mem (free.2 q)) _ _

/-- So may the pointer of an element of the queue. -/
theorem frame_mem (represents : Represents heap lists) {q : Name} {e : Ptr} (inside : e ∈ lists q)
    (next : Ptr → Ptr) (value : Ptr) {q' : Name} (other : q' ≠ q) :
    ∀ c ∈ lists q', Function.update next e value c = next c := by
  intro c mem
  refine Function.update_of_ne (fun same => other ?_) _ _
  exact represents.apart q' q c mem (same ▸ inside)

theorem owned_of_perm {q : Name} {e : Ptr} (free : Free e lists) {l : List Ptr}
    (same : l.Perm (e :: lists q)) : ∀ c ∈ l, c ∈ lists q ∨ ∀ q', c ∉ lists q' := by
  intro c mem
  rcases List.mem_cons.mp (same.mem_iff.mp mem) with rfl | old
  · exact .inr free.2
  · exact .inl old

/-! ## Steps -/

theorem qEmpty (represents : Represents heap lists) (q : Name) :
    qEmpty q heap = .ok (lists q).isEmpty heap := by
  have holds := represents.holds q
  generalize lists q = l at holds
  cases l with
  | nil =>
      exact qEmpty_of_null holds.chain.segment (UInt32.toNat_inj.mp holds.cnt_eq) holds.tail_eq
  | cons e rest =>
      exact qEmpty_of_head fun null => (by cases holds.chain.start_eq_null_iff.mp null)

variable [DecidableEq Name]

/-- One queue changes, with pointers that are in no other queue. -/
theorem update (represents : Represents heap lists) (q : Name) {next : Ptr → Ptr} {queue : Q}
    {l : List Ptr} (holds : Holds next queue l)
    (owned : ∀ e ∈ l, e ∈ lists q ∨ ∀ q', e ∉ lists q')
    (frame : ∀ q' ≠ q, ∀ e ∈ lists q', next e = heap.next e) :
    Represents ⟨next, Function.update heap.queue q queue⟩ (Function.update lists q l) := by
  -- what is in another queue is not in this one
  have disjoint : ∀ q' ≠ q, ∀ e ∈ lists q', e ∉ l := by
    intro q' other e mem inside
    rcases owned e inside with old | free
    · exact other (represents.apart q' q e mem old)
    · exact free q' mem
  constructor
  · intro q'
    by_cases same : q' = q
    · subst same
      rw [Function.update_self]
      dsimp only
      rw [Function.update_self]
      exact holds
    · rw [Function.update_of_ne same]
      dsimp only
      rw [Function.update_of_ne same]
      exact (represents.holds q').congr (frame q' same)
  · intro q' q'' e mem mem'
    by_cases same : q' = q
    · by_cases same' : q'' = q
      · rw [same, same']
      · rw [same, Function.update_self] at mem
        rw [Function.update_of_ne same'] at mem'
        exact absurd mem (disjoint q'' same' e mem')
    · rw [Function.update_of_ne same] at mem
      by_cases same' : q'' = q
      · rw [same', Function.update_self] at mem'
        exact absurd mem' (disjoint q' same e mem)
      · rw [Function.update_of_ne same'] at mem'
        exact represents.apart q' q'' e mem mem'

theorem qPush (represents : Represents heap lists) {q : Name} {e : Ptr} (free : Free e lists) :
    ∃ after, qPush q e heap = .ok () after ∧
      Represents after (Function.update lists q (e :: lists q)) :=
  ⟨_, qPush_apply free.1 heap, represents.update q ((represents.holds q).push free.1 (free.2 q))
    (owned_of_perm free (List.Perm.refl _)) fun q' _ => frame_free free _ _ q'⟩

theorem qAppend (represents : Represents heap lists) {q : Name} {e : Ptr} (free : Free e lists) :
    ∃ after, qAppend q e heap = .ok () after ∧
      Represents after (Function.update lists q (lists q ++ [e])) := by
  have holds := represents.holds q
  have owned := owned_of_perm free (List.perm_append_singleton e (lists q))
  by_cases null : (heap.queue q).tail = 0
  · have empty := holds.tail_eq_zero_iff.mp null
    refine ⟨_, qAppend_of_null free.1 null, represents.update q ?_ owned
      fun q' _ => frame_free free _ _ q'⟩
    rw [empty] at holds ⊢
    exact holds.append_nil free.1
  · obtain ⟨first, e', split⟩ : ∃ first e', lists q = first ++ [e'] :=
      List.eq_nil_or_concat' _ |>.resolve_left fun none => null (holds.tail_eq_zero_iff.mpr none)
    have notIn := free.2 q
    have inside : (heap.queue q).tail ∈ lists q := by
      rw [split] at holds ⊢
      rw [holds.tail_snoc]
      exact List.mem_append_right _ List.mem_cons_self
    refine ⟨_, qAppend_of_tail free.1 null, represents.update q ?_ owned ?_⟩
    · rw [split] at holds notIn ⊢
      rw [holds.tail_snoc]
      exact holds.append_snoc free.1 notIn
    · intro q' other c mem
      rw [represents.frame_mem inside _ _ other c mem, frame_free free _ _ q' c mem]

theorem qInsertAfter (represents : Represents heap lists) {q : Name} {e eNew : Ptr}
    (free : Free eNew lists) (place : e = 0 ∨ e ∈ lists q) :
    ∃ after, qInsertAfter q e eNew heap = .ok () after ∧
      Represents after (Function.update lists q
        (if e = 0 then eNew :: lists q else insertBehind e eNew (lists q))) := by
  by_cases null : e = 0
  · rw [if_pos null, Threads.qInsertAfter, if_pos null]
    exact represents.qPush free
  · have inside := place.resolve_left null
    have holds := represents.holds q
    have notIn := free.2 q
    obtain ⟨first, second, split⟩ := List.append_of_mem inside
    rw [split] at holds notIn
    have once := (List.nodup_cons.mp (List.nodup_middle.mp holds.chain.nodup)).1
    have notBefore : e ∉ first := fun mem => once (List.mem_append_left _ mem)
    have isLast := holds.tail_eq_iff once
    rw [if_neg null, split, insertBehind_append notBefore]
    by_cases last : (heap.queue q).tail = e
    · have empty := isLast.mp last
      have same : first ++ e :: eNew :: second = lists q ++ [eNew] := by
        rw [split, empty, List.append_assoc]
        rfl
      rw [Threads.qInsertAfter, if_neg null, Prog.bind_of_ok (load_apply _ _), if_pos last, same]
      exact represents.qAppend free
    · have moved : (first ++ [e] ++ eNew :: second).Perm (eNew :: (first ++ [e] ++ second)) :=
        List.perm_middle
      rw [List.append_assoc, List.append_assoc] at moved
      have owned := owned_of_perm (q := q) free (split.symm ▸ moved)
      refine ⟨_, qInsertAfter_of_inner null free.1 last, represents.update q
        (holds.insert (fun empty => last (isLast.mpr empty)) free.1 notIn) owned ?_⟩
      intro q' other c mem
      rw [represents.frame_mem inside _ _ other c mem, frame_free free _ _ q' c mem]

theorem qPop (represents : Represents heap lists) (q : Name) :
    (lists q = [] ∧ qPop q heap = .ok 0 heap) ∨
      ∃ e rest after, lists q = e :: rest ∧ qPop q heap = .ok e after ∧
        Represents after (Function.update lists q rest) := by
  have holds := represents.holds q
  have empty := represents.qEmpty q
  cases contents : lists q with
  | nil =>
      rw [contents] at holds empty
      exact .inl ⟨rfl, qPop_of_null holds.chain.segment empty⟩
  | cons e rest =>
      rw [contents] at holds
      have named : (heap.queue q).head ≠ 0 :=
        fun null => (by cases holds.chain.start_eq_null_iff.mp null)
      have ran := qPop_of_head named
      have kept := holds.pop
      rw [holds.chain.head_eq] at ran kept
      refine .inr ⟨e, rest, _, rfl, ran, ?_⟩
      refine represents.update q kept (fun c mem => .inl ?_) fun _ _ _ _ => rfl
      rw [contents]
      exact List.mem_cons_of_mem e mem

end Represents

/-! ## Runs -/

variable [DecidableEq Name]

/-- Every allowed operation does to its queue what it does to the list. -/
theorem qStep_agrees (op : QOp Name) (heap : Heap Name) (lists : Lists Name)
    (represents : Represents heap lists) (allowed : Allowed op lists) :
    Agree Represents (qStep op heap) (listStep op lists) := by
  cases op with
  | empty q =>
      rw [qStep, Prog.bind_of_ok (represents.qEmpty q)]
      exact .returned (Reply.flag (lists q).isEmpty) represents
  | pop q =>
      rw [qStep, listStep, Prog.bind_of_ok (Prog.get_apply lists)]
      rcases represents.qPop q with ⟨empty, ran⟩ | ⟨e, rest, after, contents, ran, kept⟩
      · rw [Prog.bind_of_ok ran, empty]
        exact .returned (Reply.elem 0) represents
      · rw [Prog.bind_of_ok ran, contents]
        exact .returned (Reply.elem e) kept
  | append q e =>
      obtain ⟨after, ran, kept⟩ := represents.qAppend allowed
      rw [qStep, Prog.bind_of_ok ran]
      exact .returned Reply.done kept
  | push q e =>
      obtain ⟨after, ran, kept⟩ := represents.qPush allowed
      rw [qStep, Prog.bind_of_ok ran]
      exact .returned Reply.done kept
  | insertAfter q e eNew =>
      obtain ⟨after, ran, kept⟩ := represents.qInsertAfter allowed.1 allowed.2
      rw [qStep, Prog.bind_of_ok ran]
      exact .returned Reply.done kept

/-- The list operations never stop. -/
theorem listStep_returns (op : QOp Name) (lists : Lists Name) :
    ∃ reply after, listStep op lists = .ok reply after := by
  cases op with
  | pop q =>
      rw [listStep, Prog.bind_of_ok (Prog.get_apply lists)]
      cases lists q with
      | nil => exact ⟨_, _, rfl⟩
      | cons e rest => exact ⟨_, _, rfl⟩
  | _ => exact ⟨_, _, rfl⟩

theorem lists_return (ops : List (QOp Name)) (lists : Lists Name) :
    ∃ replies after, ops.mapM listStep lists = .ok replies after := by
  induction ops generalizing lists with
  | nil => exact ⟨[], lists, rfl⟩
  | cons op ops ih =>
      obtain ⟨reply, middle, ran⟩ := listStep_returns op lists
      obtain ⟨replies, after, rest⟩ := ih middle
      rw [List.mapM_cons, Prog.bind_of_ok ran, Prog.bind_of_ok rest]
      exact ⟨_, _, rfl⟩

/-- From empty queues, every run of allowed operations returns what it returns on
lists, and leaves queues that hold these lists and share no element. -/
theorem queues_refine_lists (next : Ptr → Ptr) {ops : List (QOp Name)}
    (allowed : Along listStep Allowed ops (fun _ => [])) :
    ∃ replies heap lists, ops.mapM qStep ⟨next, fun _ => ⟨0, 0, 0⟩⟩ = .ok replies heap ∧
      ops.mapM listStep (fun _ => []) = .ok replies lists ∧ Represents heap lists ∧
      ∀ q, (heap.queue q).tail = 0 ↔ lists q = [] := by
  obtain ⟨replies, lists, ideal⟩ := lists_return ops (fun _ => [])
  have agree := mapM_agree qStep_agrees ops _ _ (.start next) allowed
  rw [ideal] at agree
  obtain ⟨heap, ran, represents⟩ := agree.left_of_ok
  exact ⟨replies, heap, lists, ran, ideal, represents,
    fun q => (represents.holds q).tail_eq_zero_iff⟩

/-- Elements that move from one queue to the other and back. -/
def movingRun : List (QOp Bool) :=
  [.append true 16, .append true 32, .insertAfter true 16 48, .pop true, .push false 16,
    .empty true]

theorem queues_refine_lists_of_movingRun :
    ∃ replies heap lists, movingRun.mapM qStep ⟨id, fun _ => ⟨0, 0, 0⟩⟩ = .ok replies heap ∧
      movingRun.mapM listStep (fun _ => []) = .ok replies lists ∧ Represents heap lists ∧
      ∀ q, (heap.queue q).tail = 0 ↔ lists q = [] := by
  have allowed : Along listStep Allowed movingRun (fun _ => []) :=
    .cons ⟨by decide, by decide⟩ rfl (.cons ⟨by decide, by decide⟩ rfl
      (.cons ⟨⟨by decide, by decide⟩, .inr (by decide)⟩ rfl (.cons trivial rfl
        (.cons ⟨by decide, by decide⟩ rfl (.cons trivial rfl trivial)))))
  exact queues_refine_lists id allowed

end Cs140e.Threads
