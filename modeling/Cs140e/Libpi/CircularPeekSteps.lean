import Cs140e.Libpi.CircularPeek

/-!
# What a peek sees that is interrupted by pushes

Every step of the interrupted peek keeps its invariant, so a call that returns
has peeked ahead unless something was pushed between its two counts.
-/

namespace Cs140e.Libpi.Circular

open Cs140e.Library
open Cs140e.Library.Ring

variable {N : Nat}

/-! ## The steps of the client -/

namespace PeekNSystem

/-- A step that changes neither the queue nor what was pushed and popped. -/
theorem Inv.moved {n taken : Nat} {history : List Cqe} {s : PeekNSystem N}
    (inv : s.Inv n taken history) (point : PeekNPoint N)
    (counts : ({ s with point := point } : PeekNSystem N).Counts taken
      (history ++ s.client.pushed).length)
    (calm : s.raced = [] → s.Quiet n taken (history ++ s.client.pushed) →
      ({ s with point := point } : PeekNSystem N).Calm n taken (history ++ s.client.pushed)) :
    ({ s with point := point } : PeekNSystem N).Inv n taken history where
  head_eq := inv.head_eq
  raced_le := inv.raced_le
  counts := counts
  quiet := fun raced =>
    have quiet := inv.quiet raced
    ⟨quiet.tracks, quiet.order, calm raced quiet⟩

/-- An access of a pop leaves the head and the pushed bytes alone. -/
theorem popStep_keeps {client after : PopSystem N} {action : PopAction}
    (step : popStep? client action = some after) (own : ∀ x, action ≠ .interrupt x) :
    after.pushed = client.pushed ∧ after.ring.head = client.ring.head := by
  obtain ⟨ring, point, pushed, popped, peeked⟩ := client
  cases action with
  | interrupt x => exact absurd rfl (own x)
  | callPop | callPeek =>
      cases point with
      | idle => cases step; exact ⟨rfl, rfl⟩
      | _ => cases step
  | loadHead =>
      match point, step with
      | .testEmpty peek none tail, step => cases step; exact ⟨rfl, rfl⟩
  | loadTail =>
      match point, step with
      | .testEmpty peek head none, step => cases step; exact ⟨rfl, rfl⟩
  | next =>
      match point, step with
      | .testEmpty peek (some head) (some tail), step =>
          by_cases same : head = tail
          · cases (if_pos same).symm.trans step; exact ⟨rfl, rfl⟩
          · cases (if_neg same).symm.trans step; exact ⟨rfl, rfl⟩
      | .loadTail peek, step => cases step; exact ⟨rfl, rfl⟩
      | .loadSlot true tail, step => cases step; exact ⟨rfl, rfl⟩
      | .loadSlot false tail, step => cases step; exact ⟨rfl, rfl⟩
      | .storeTail tail e, step => cases step; exact ⟨rfl, rfl⟩

/-- While nothing is pushed, the pops of the peek take the oldest bytes. -/
theorem popStep_steady (size : RingSize N) {client after : PopSystem N} {action : PopAction}
    (step : popStep? client action = some after) (own : ∀ x, action ≠ .interrupt x)
    {n taken : Nat} {total : List Cqe} (enough : taken + n ≤ total.length)
    (more : action = .callPop → client.popped.length < n) (noPeek : action ≠ .callPeek)
    (tracks : Tracks client.ring total (taken + client.popped.length))
    (order : client.popped = (total.drop taken).take client.popped.length)
    (steady : client.point.Steady n total taken client.popped.length) :
    Tracks after.ring total (taken + after.popped.length) ∧
    after.popped = (total.drop taken).take after.popped.length ∧
    after.point.Steady n total taken after.popped.length := by
  obtain ⟨ring, point, pushed, popped, peeked⟩ := client
  dsimp only at tracks order steady more
  cases action with
  | interrupt x => exact absurd rfl (own x)
  | callPeek => exact absurd rfl noPeek
  | callPop =>
      cases point with
      | idle =>
          cases step
          exact ⟨tracks, order, more rfl, loaded_none _, loaded_none _⟩
      | _ => cases step
  | loadHead =>
      match point, step, steady with
      | .testEmpty false none tail, step, steady =>
          cases step
          exact ⟨tracks, order, steady.1, loaded_some tracks.head_eq, steady.2.2⟩
      | .testEmpty true none tail, step, steady => exact absurd steady id
  | loadTail =>
      match point, step, steady with
      | .testEmpty false head none, step, steady =>
          cases step
          exact ⟨tracks, order, steady.1, steady.2.1, loaded_some tracks.tail_eq⟩
      | .testEmpty true head none, step, steady => exact absurd steady id
  | next =>
      match point, step, steady with
      | .testEmpty false (some head) (some tail), step, steady =>
          by_cases same : head = tail
          · cases (if_pos same).symm.trans step
            exact ⟨tracks, order, Nat.le_of_lt steady.1⟩
          · cases (if_neg same).symm.trans step
            exact ⟨tracks, order, steady.1⟩
      | .testEmpty true (some head) (some tail), step, steady => exact absurd steady id
      | .loadTail false, step, steady =>
          cases step
          exact ⟨tracks, order, steady, tracks.tail_eq⟩
      | .loadTail true, step, steady => exact absurd steady id
      | .loadSlot true tail, step, steady => exact absurd steady id
      | .loadSlot false tail, step, steady =>
          cases step
          refine ⟨tracks, order, steady.1, steady.2, ?_⟩
          rw [steady.2]
          exact tracks.window.oldest (by have := steady.1; omega)
      | .storeTail tail e, step, steady =>
          cases step
          obtain ⟨below, tailEq, byteEq⟩ := steady
          have grown : (popped ++ [e]).length = popped.length + 1 := List.length_append
          have moved : Cq.next N tail = Cq.next N ring.tail := by rw [tailEq, tracks.tail_eq]
          dsimp only
          rw [grown]
          refine ⟨?_, ?_, below⟩
          · have fits := tracks.window.fits
            refine tracks.setTail _ (by omega) (by omega) ?_
            rw [moved, tracks.tail_eq, Tracks.next_mod size]
            rfl
          · rw [List.take_add_one, ← order, List.getElem?_drop, byteEq]
            rfl

/-- An access of a pop, taken inside the peek. -/
theorem pop_inv (size : RingSize N) {n taken sz : Nat} {saved : Fin N} {history : List Cqe}
    {client after : PopSystem N} {raced : List Cqe}
    (inv : (⟨client, .pops sz saved, raced⟩ : PeekNSystem N).Inv n taken history)
    {action : PopAction} (step : popStep? client action = some after)
    (own : ∀ x, action ≠ .interrupt x) (noPeek : action ≠ .callPeek)
    (more : action = .callPop → client.popped.length < n) :
    (⟨after, .pops sz saved, raced⟩ : PeekNSystem N).Inv n taken history := by
  obtain ⟨head_eq, raced_le, counts, quiet⟩ := inv
  obtain ⟨samePushed, sameHead⟩ := popStep_keeps step own
  dsimp only at head_eq raced_le counts quiet
  rw [← samePushed] at head_eq raced_le counts quiet
  refine ⟨sameHead.trans head_eq, raced_le, counts, fun none => ?_⟩
  obtain ⟨tracks, order, steady, enough, fits⟩ := quiet none
  obtain ⟨tracks', order', steady'⟩ :=
    popStep_steady size step own enough more noPeek tracks order steady
  exact ⟨tracks', order', steady', enough, fits⟩

/-- The first count found `n` bytes, and there are that many. -/
theorem count_inv (size : RingSize N) {n taken : Nat} {history : List Cqe}
    {client : PopSystem N} {raced : List Cqe} {head tail : Fin N}
    (inv : (⟨client, .count (some head) (some tail), raced⟩ : PeekNSystem N).Inv n taken history)
    (few : ¬ n > nelemOf head tail) :
    (⟨client, .saveTail (nelemOf head tail), raced⟩ : PeekNSystem N).Inv n taken history := by
  obtain ⟨tailEq, tailLoaded, _, headLoaded⟩ := inv.counts
  have counted := nelemOf_eq headLoaded tailLoaded
  refine inv.moved _ ⟨tailEq, counted⟩ fun none quiet => ?_
  obtain ⟨tracks, _, popped, idle⟩ := quiet
  rw [none] at counted
  dsimp only at popped counted tracks
  rw [popped] at tracks
  have all : nelemOf head tail = (history ++ client.pushed).length - taken :=
    counted.trans (tracks.nelemAt_eq size)
  have le := tracks.window.popped_le
  simp only [List.length_nil, Nat.add_zero] at le
  exact ⟨popped, idle, by dsimp only; omega⟩

/-- The second test of the length finds `n` bytes as well, unless one was pushed. -/
theorem recount_inv (size : RingSize N) {n taken sz : Nat} {history : List Cqe}
    {client : PopSystem N} {raced : List Cqe} {saved head tail : Fin N} {point : PeekNPoint N}
    (inv : (⟨client, .recount sz saved (some head) (some tail), raced⟩ : PeekNSystem N).Inv
      n taken history)
    (next : (nelemOf head tail < n ∧ point = .refused) ∨ point = .pops sz saved) :
    (⟨client, point, raced⟩ : PeekNSystem N).Inv n taken history := by
  have counts := inv.counts
  rcases next with ⟨short, rfl⟩ | rfl
  · refine inv.moved _ trivial fun none quiet => ?_
    obtain ⟨tracks, _, popped, _, enough, headLoaded, tailLoaded⟩ := quiet
    dsimp only at popped tracks
    rw [popped] at tracks
    have all : nelemOf head tail = (history ++ client.pushed).length - taken :=
      (nelemOf_eq headLoaded tailLoaded).trans (tracks.nelemAt_eq size)
    dsimp only at enough
    omega
  · refine inv.moved _ counts fun none quiet => ?_
    obtain ⟨tracks, _, popped, idle, enough, _, _⟩ := quiet
    dsimp only at popped idle tracks
    have fits := tracks.window.fits
    rw [popped] at fits
    refine ⟨?_, enough, fits⟩
    dsimp only
    rw [idle, popped]
    exact Nat.zero_le n

theorem popNext_inv (size : RingSize N) {n taken sz : Nat} {saved : Fin N} {history : List Cqe}
    {client : PopSystem N} {raced : List Cqe} {after : PeekNSystem N}
    (inv : (⟨client, .pops sz saved, raced⟩ : PeekNSystem N).Inv n taken history)
    (step : popNext? n sz saved (⟨client, .pops sz saved, raced⟩ : PeekNSystem N) = some after) :
    after.Inv n taken history := by
  have inner : ∀ {action : PopAction}, (popStep? client action).map
      (fun client => (⟨client, .pops sz saved, raced⟩ : PeekNSystem N)) = some after →
      (∀ x, action ≠ .interrupt x) → action ≠ .callPeek →
      (action = .callPop → client.popped.length < n) → after.Inv n taken history := by
    intro action moved own noPeek more
    obtain ⟨middle, popped, rfl⟩ := Option.map_eq_some_iff.mp moved
    exact pop_inv size inv popped own noPeek more
  unfold popNext? at step
  dsimp only at step
  split at step
  next idle =>
    by_cases more : client.popped.length < n
    · rw [if_pos more] at step
      exact inner step nofun nofun fun _ => more
    · rw [if_neg more] at step
      cases step
      refine inv.moved _ inv.counts fun none quiet => ?_
      obtain ⟨_, _, steady, enough, fits⟩ := quiet
      dsimp only at steady
      rw [idle] at steady
      exact ⟨Nat.le_antisymm steady (Nat.le_of_not_lt more), idle, enough, fits⟩
  next peek head tail testing =>
    by_cases same : head = tail
    · rw [if_pos same] at step
      cases step
      refine inv.moved _ trivial fun none quiet => ?_
      obtain ⟨tracks, _, steady, enough, fits⟩ := quiet
      dsimp only at steady tracks enough fits
      rw [testing] at steady
      cases peek with
      | true => exact steady
      | false =>
          obtain ⟨below, headLoaded, tailLoaded⟩ := steady
          have turn := headLoaded head rfl
          rw [same, tailLoaded tail rfl] at turn
          have empty := tracks.window.mod_eq_iff.mp turn.symm
          omega
    · rw [if_neg same] at step
      exact inner step nofun nofun nofun
  next => exact inner step nofun nofun nofun

/-- Putting the tail back returns the popped bytes to the queue. -/
theorem restore_inv {n taken sz : Nat} {saved : Fin N} {history : List Cqe}
    {client : PopSystem N} {raced : List Cqe}
    (inv : (⟨client, .restore sz saved, raced⟩ : PeekNSystem N).Inv n taken history) :
    (⟨{ client with ring := client.ring.setTail saved saved.isLt, popped := [] },
      .check sz client.popped none none, raced⟩ : PeekNSystem N).Inv n taken history := by
  obtain ⟨head_eq, raced_le, ⟨savedEq, szEq⟩, quiet⟩ := inv
  refine ⟨head_eq, raced_le, ⟨savedEq, loaded_none _, _, szEq, fun _ => ?_, loaded_none _⟩, ?_⟩
  · dsimp only at raced_le ⊢
    rw [List.length_append]
    omega
  · intro none
    obtain ⟨tracks, order, lengthEq, idle, enough, fits⟩ := quiet none
    dsimp only at lengthEq tracks order enough fits idle
    refine ⟨?_, rfl, rfl, ?_, enough⟩
    · exact tracks.setTail saved.isLt (by dsimp only [List.length_nil]; omega) fits savedEq
    · rw [← lengthEq]
      exact order

/-- The assertion compares the two counts. -/
theorem check_inv {n taken sz : Nat} {v history : List Cqe} {client : PopSystem N}
    {raced : List Cqe} {head tail : Fin N}
    (inv : (⟨client, .check sz v (some head) (some tail), raced⟩ : PeekNSystem N).Inv
      n taken history) {point : PeekNPoint N}
    (next : (sz = nelemOf head tail ∧ point = .found v) ∨
      (sz ≠ nelemOf head tail ∧ point = .miscounted)) :
    (⟨client, point, raced⟩ : PeekNSystem N).Inv n taken history := by
  obtain ⟨tailEq, tailLoaded, counted, szEq, _, headLoaded⟩ := inv.counts
  have again := nelemOf_eq headLoaded tailLoaded
  rcases next with ⟨same, rfl⟩ | ⟨differ, rfl⟩
  · refine inv.moved _ ⟨counted, ?_⟩ fun _ quiet => quiet.calm
    rw [← szEq, same, again]
  · refine inv.moved _ trivial fun none _ => ?_
    rw [none] at again
    exact differ (szEq.trans again.symm)

/-- One access of the client, or one interrupt, keeps the invariant. -/
theorem step_inv (size : RingSize N) {n taken : Nat} {history : List Cqe}
    {s after : PeekNSystem N} (inv : s.Inv n taken history) (action : PeekNAction)
    (step : peekNStep? n s action = some after) : after.Inv n taken history := by
  obtain ⟨client, point, raced⟩ := s
  have counts := inv.counts
  cases action with
  | interrupt x =>
      cases running : point.ended with
      | true =>
          cases (if_pos running).symm.trans step
      | false =>
          cases (if_neg (by rw [running]; exact Bool.false_ne_true)).symm.trans step
          exact interrupt_inv size inv running x
  | loadHead =>
      match point, inv, counts, step with
      | .count none tail, inv, counts, step =>
          cases step
          obtain ⟨tailEq, tailLoaded, none, _⟩ := counts
          refine inv.moved _ ⟨tailEq, tailLoaded, nofun, ?_⟩ fun _ quiet => quiet.calm
          refine loaded_some ?_
          dsimp only at none ⊢
          rw [none rfl]
          exact inv.head_eq
      | .recount sz saved none tail, inv, counts, step =>
          cases step
          refine inv.moved _ counts fun _ quiet => ?_
          obtain ⟨popped, idle, enough, _, tailLoaded⟩ := quiet.calm
          exact ⟨popped, idle, enough, loaded_some inv.head_eq, tailLoaded⟩
      | .pops sz saved, inv, _, step =>
          obtain ⟨middle, popped, rfl⟩ := Option.map_eq_some_iff.mp step
          exact pop_inv size inv popped nofun nofun nofun
      | .check sz v none tail, inv, counts, step =>
          cases step
          obtain ⟨tailEq, tailLoaded, counted, szEq, known, _⟩ := counts
          refine inv.moved _ ⟨tailEq, tailLoaded, counted, szEq, nofun, ?_⟩
            fun _ quiet => quiet.calm
          refine loaded_some ?_
          rw [known rfl]
          exact inv.head_eq
  | loadTail =>
      match point, inv, counts, step with
      | .count head none, inv, counts, step =>
          cases step
          obtain ⟨tailEq, _, none, headLoaded⟩ := counts
          exact inv.moved _ ⟨tailEq, loaded_some tailEq, none, headLoaded⟩
            fun _ quiet => quiet.calm
      | .recount sz saved head none, inv, counts, step =>
          cases step
          refine inv.moved _ counts fun _ quiet => ?_
          obtain ⟨popped, idle, enough, headLoaded, _⟩ := quiet.calm
          have tailEq := quiet.tracks.tail_eq
          rw [popped] at tailEq
          exact ⟨popped, idle, enough, headLoaded, loaded_some tailEq⟩
      | .pops sz saved, inv, _, step =>
          obtain ⟨middle, popped, rfl⟩ := Option.map_eq_some_iff.mp step
          exact pop_inv size inv popped nofun nofun nofun
      | .check sz v head none, inv, counts, step =>
          cases step
          obtain ⟨tailEq, _, counted, szEq, known, headLoaded⟩ := counts
          exact inv.moved _ ⟨tailEq, loaded_some tailEq, counted, szEq, known, headLoaded⟩
            fun _ quiet => quiet.calm
  | next =>
      match point, inv, counts, step with
      | .count (some head) (some tail), inv, _, step =>
          by_cases few : n > nelemOf head tail
          · cases (if_pos few).symm.trans step
            exact inv.moved _ trivial fun _ _ => trivial
          · cases (if_neg few).symm.trans step
            exact count_inv size inv few
      | .saveTail sz, inv, counts, step =>
          cases step
          refine inv.moved _ counts fun _ quiet => ?_
          obtain ⟨popped, idle, enough⟩ := quiet.calm
          exact ⟨popped, idle, enough, loaded_none _, loaded_none _⟩
      | .recount sz saved (some head) (some tail), inv, _, step =>
          by_cases short : nelemOf head tail < n
          · cases (if_pos short).symm.trans step
            exact recount_inv size inv (.inl ⟨short, rfl⟩)
          · cases (if_neg short).symm.trans step
            exact recount_inv size inv (.inr rfl)
      | .pops sz saved, inv, _, step => exact popNext_inv size inv step
      | .restore sz saved, inv, _, step =>
          cases step
          exact restore_inv inv
      | .check sz v (some head) (some tail), inv, _, step =>
          by_cases same : sz = nelemOf head tail
          · cases (if_pos same).symm.trans step
            exact check_inv inv (.inl ⟨same, rfl⟩)
          · cases (if_neg same).symm.trans step
            exact check_inv inv (.inr ⟨same, rfl⟩)

end PeekNSystem

/-! ## Whole calls -/

/-- `cq_peek_n` returned 1 with the oldest `n` bytes, and the queue still holds
all bytes it held, followed by those pushed during the call. -/
def PeeksAhead (n : Nat) (queue : List Cqe) (s : PeekNSystem N) : Prop :=
  s.point = .found ((queue ++ s.client.pushed).take n) ∧
  cqContents s.client.ring = queue ++ s.client.pushed

theorem cqContents_length_lt (c : Cq N) : (cqContents c).length < N := by
  rw [cqContents, occupied, List.length_map, List.length_map, List.length_range, cqNelem]
  exact Nat.mod_lt _ c.size_pos

/-- A complete call that found `n` bytes peeks ahead if and only if no byte was
pushed between its two counts. -/
theorem PeekNSystem.Inv.peeks_ahead_iff (size : RingSize N) {n taken : Nat} {history : List Cqe}
    {s : PeekNSystem N} (inv : s.Inv n taken history) (known : taken ≤ history.length)
    (ended : s.point.ended = true) (enough : s.point ≠ .tooFew) :
    PeeksAhead n (history.drop taken) s ↔ s.raced = [] := by
  obtain ⟨client, point, raced⟩ := s
  constructor
  · rintro ⟨found, contents⟩
    dsimp only at found contents
    subst found
    obtain ⟨counted, again⟩ := inv.counts
    by_contra some
    have turns := Nat.le_of_dvd (List.length_pos_of_ne_nil some) (dvd_of_nelemAt_eq size again)
    have short := cqContents_length_lt client.ring
    have pushes := inv.raced_le
    rw [contents, List.length_append] at short
    dsimp only at turns pushes
    omega
  · intro none
    obtain ⟨tracks, _, calm⟩ := inv.quiet none
    cases point with
    | found v =>
        obtain ⟨popped, vEq, _⟩ := calm
        dsimp only at popped tracks vEq
        rw [popped] at tracks
        have rest : (history ++ client.pushed).drop taken =
            history.drop taken ++ client.pushed := List.drop_append_of_le_length known
        refine ⟨?_, ?_⟩
        · rw [vEq, rest]
        · rw [← rest]
          exact tracks.contents_eq size
    | tooFew => exact absurd rfl enough
    | refused | deadlocked | miscounted => exact calm.elim
    | _ => cases ended

/-- In every queue that calls can lead to, and however a call of `cq_peek_n` that
finds `n` bytes is interrupted by pushes, it peeks ahead without harm if and only
if no push stores a byte between its first count and its last. -/
theorem cq_peek_n_peeks_ahead_iff (size : RingSize N) (positive : 0 < N) (errorsFatalP : Bool)
    {init c : Cq N} (ready : cqInit positive errorsFatalP = .ok () init) {calls : List Call}
    {replies : List (Reply Cqe)} (reached : calls.mapM callStep init = .ok replies c) (n : Nat)
    {actions : List PeekNAction} {s : PeekNSystem N}
    (run : actions.foldlM (peekNStep? n) (PeekNSystem.start c) = some s)
    (ended : s.point.ended = true) (enough : s.point ≠ .tooFew) :
    PeeksAhead n (cqContents c) s ↔ s.raced = [] := by
  rw [cqInit_ok size positive errorsFatalP] at ready
  cases ready
  obtain ⟨queue, holds⟩ := mapM_keeps (fun c => ∃ queue, Holds c queue)
    (fun call _ _ _ => callStep_keeps size call) calls _ ⟨[], Holds.zeroed positive errorsFatalP⟩
    replies c reached
  obtain ⟨history, taken, tracks, queueEq⟩ := holds
  have inv := foldlM_keeps _
    (fun _ action _ inv step => PeekNSystem.step_inv size inv action step) actions _ _
    (PeekNSystem.start_inv tracks n) run
  rw [tracks.contents_eq size]
  exact inv.peeks_ahead_iff size tracks.window.popped_le ended enough

/-- The accesses of a peek of one byte, with an interrupt after the first count
and one after the last. -/
def peekOne (early late : List PeekNAction) : List PeekNAction :=
  [.loadHead, .loadTail, .next] ++ early ++
  [.next, .loadTail, .loadHead, .next, .next, .loadHead, .loadTail, .next, .next, .next, .next,
    .next, .next, .loadTail, .loadHead] ++ late ++ [.next]

/-- The queue of four slots after `cq_init` and one push. -/
def pushedSeven : Cq 4 :=
  ((Cq.zeroed (by decide) true).setSlot 0 (by decide) 7).setHead 1 (by decide)

theorem pushedSeven_reached :
    [Call.single (.push 7)].mapM callStep (Cq.zeroed (N := 4) (by decide) true) =
      .ok [.accepted true] pushedSeven := rfl

theorem cq_peek_n_peeks_ahead_iff_of_late_push :
    ∃ init replies s,
      cqInit (N := 4) (by decide) true = .ok () init ∧
      [Call.single (.push 7)].mapM callStep init = .ok replies pushedSeven ∧
      (peekOne [] [.interrupt 8]).foldlM (peekNStep? 1) (PeekNSystem.start pushedSeven) = some s ∧
      PeeksAhead 1 (cqContents pushedSeven) s := by
  have size : RingSize 4 := ⟨2, by decide, by decide, rfl⟩
  have init := cqInit_ok size (by decide) true
  have seen : ((peekOne [] [.interrupt 8]).foldlM (peekNStep? 1)
      (PeekNSystem.start pushedSeven)).map (fun s => (s.point, s.raced)) =
      some (.found [7], []) := by decide +kernel
  obtain ⟨s, run, same⟩ := Option.map_eq_some_iff.mp seen
  obtain ⟨point, raced⟩ := Prod.mk.inj same
  refine ⟨_, _, s, init, pushedSeven_reached, run, ?_⟩
  refine (cq_peek_n_peeks_ahead_iff size (by decide) true init pushedSeven_reached 1 run ?_
    ?_).mpr raced
  · rw [point]
    rfl
  · rw [point]
    nofun

/-- One push right after the first count, and the assertion fails. -/
theorem early_push_kills_peek :
    ∃ init replies s,
      cqInit (N := 4) (by decide) true = .ok () init ∧
      [Call.single (.push 7)].mapM callStep init = .ok replies pushedSeven ∧
      (peekOne [.interrupt 8] []).foldlM (peekNStep? 1) (PeekNSystem.start pushedSeven) = some s ∧
      s.point = .miscounted ∧ ¬ PeeksAhead 1 (cqContents pushedSeven) s := by
  have seen : ((peekOne [.interrupt 8] []).foldlM (peekNStep? 1)
      (PeekNSystem.start pushedSeven)).map (fun s => s.point) = some .miscounted := by
    decide +kernel
  obtain ⟨s, run, point⟩ := Option.map_eq_some_iff.mp seen
  refine ⟨_, _, s, cqInit_ok ⟨2, by decide, by decide, rfl⟩ (by decide) true, pushedSeven_reached,
    run, point, fun ahead => ?_⟩
  rw [PeeksAhead, point] at ahead
  exact nomatch ahead.1

end Cs140e.Libpi.Circular
