import Mathlib.Data.Nat.ModEq
import Cs140e.Libpi.CircularBlock
import Cs140e.Libpi.CircularInterrupt

/-!
# Peeking ahead while an interrupt handler pushes

`cq_peek_n` counts the queued bytes, pops `n` of them, puts the tail back and
counts again.  The handler may run a complete `cq_push` between any two of its
memory accesses.  While the tail is advanced the handler sees room that is
about to be taken back, and the second count sees every byte that arrived
since the first.
-/

namespace Cs140e.Libpi.Circular

open Cs140e.Library
open Cs140e.Library.Ring

variable {N : Nat}

/-- `cq_nelem` on the two indices it has loaded. -/
def nelemOf (head tail : Fin N) : Nat := unsignedSub head tail % N

/-- Program points of `cq_peek_n`, with its locals.  Inside `cq_pop_n` the point
of the current pop is that of the client.  The last five are its ends: it
returned 0, `cq_pop_n_noblk` returned 0, `cq_pop` or the assertion panicked, and
it returned 1. -/
inductive PeekNPoint (N : Nat) where
  | count (head tail : Option (Fin N))
  | saveTail (sz : Nat)
  | recount (sz : Nat) (saved : Fin N) (head tail : Option (Fin N))
  | pops (sz : Nat) (saved : Fin N)
  | restore (sz : Nat) (saved : Fin N)
  | check (sz : Nat) (v : List Cqe) (head tail : Option (Fin N))
  | tooFew
  | refused
  | deadlocked
  | miscounted
  | found (v : List Cqe)
  deriving DecidableEq

namespace PeekNPoint

def ended : PeekNPoint N → Bool
  | .tooFew | .refused | .deadlocked | .miscounted | .found _ => true
  | _ => false

/-- The head is loaded for `sz`, and not yet for the assertion. -/
def racing : PeekNPoint N → Bool
  | .count head _ => head.isSome
  | .check _ _ head _ => head.isNone
  | .saveTail _ | .recount .. | .pops .. | .restore .. => true
  | _ => false

end PeekNPoint

/-- The client of `cq_peek_n`; `client.popped` are the bytes it has stored into
`v` and not put back, `client.pushed` those whose push returned 1 during the
call, and `raced` the ones among these that were pushed between the two counts. -/
structure PeekNSystem (N : Nat) where
  client : PopSystem N
  point : PeekNPoint N
  raced : List Cqe

inductive PeekNAction where
  | loadHead
  | loadTail
  | next
  | interrupt (x : Cqe)

namespace PeekNSystem

def start (c : Cq N) : PeekNSystem N := ⟨⟨c, .idle, [], [], []⟩, .count none none, []⟩

def head (s : PeekNSystem N) : Fin N := ⟨s.client.ring.head, s.client.ring.head_lt⟩

def tail (s : PeekNSystem N) : Fin N := ⟨s.client.ring.tail, s.client.ring.tail_lt⟩

/-- The interrupt handler runs `cq_push` to its end. -/
def interrupt (s : PeekNSystem N) (x : Cqe) : PeekNSystem N :=
  match cqPush x s.client.ring with
  | .ok true ring =>
      { s with
        client := { s.client with ring := ring, pushed := s.client.pushed ++ [x] }
        raced := if s.point.racing then s.raced ++ [x] else s.raced }
  | _ => s

/-- One access of `cq_pop_n`: the loop test, or an access of the pop it is in. -/
def popNext? (n sz : Nat) (saved : Fin N) (s : PeekNSystem N) : Option (PeekNSystem N) :=
  match s.client.point with
  | .idle =>
      if s.client.popped.length < n then
        (popStep? s.client .callPop).map fun client => { s with client := client }
      else some { s with point := .restore sz saved }
  | .testEmpty _ (some head) (some tail) =>
      if head = tail then some { s with point := .deadlocked }
      else (popStep? s.client .next).map fun client => { s with client := client }
  | _ => (popStep? s.client .next).map fun client => { s with client := client }

end PeekNSystem

def peekNStep? (n : Nat) (s : PeekNSystem N) (action : PeekNAction) : Option (PeekNSystem N) :=
  match action, s.point with
  | .interrupt x, point => if point.ended then none else some (s.interrupt x)
  | .loadHead, .count none tail => some { s with point := .count (some s.head) tail }
  | .loadTail, .count head none => some { s with point := .count head (some s.tail) }
  | .next, .count (some head) (some tail) =>
      if n > nelemOf head tail then some { s with point := .tooFew }
      else some { s with point := .saveTail (nelemOf head tail) }
  | .next, .saveTail sz => some { s with point := .recount sz s.tail none none }
  | .loadHead, .recount sz saved none tail =>
      some { s with point := .recount sz saved (some s.head) tail }
  | .loadTail, .recount sz saved head none =>
      some { s with point := .recount sz saved head (some s.tail) }
  | .next, .recount sz saved (some head) (some tail) =>
      if nelemOf head tail < n then some { s with point := .refused }
      else some { s with point := .pops sz saved }
  | .loadHead, .pops _ _ =>
      (popStep? s.client .loadHead).map fun client => { s with client := client }
  | .loadTail, .pops _ _ =>
      (popStep? s.client .loadTail).map fun client => { s with client := client }
  | .next, .pops sz saved => s.popNext? n sz saved
  | .next, .restore sz saved =>
      some { s with
        client := { s.client with
          ring := s.client.ring.setTail saved saved.isLt
          popped := [] }
        point := .check sz s.client.popped none none }
  | .loadHead, .check sz v none tail => some { s with point := .check sz v (some s.head) tail }
  | .loadTail, .check sz v head none => some { s with point := .check sz v head (some s.tail) }
  | .next, .check sz v (some head) (some tail) =>
      if sz = nelemOf head tail then some { s with point := .found v }
      else some { s with point := .miscounted }
  | _, _ => none

/-! ## What the two counts tell -/

/-- `cq_nelem` after that many pushes and pops. -/
def nelemAt (N pushes pops : Nat) : Nat := unsignedSub (pushes % N) (pops % N) % N

/-- An index that is loaded is the one of this count. -/
def Loaded (index : Option (Fin N)) (count : Nat) : Prop :=
  ∀ i, index = some i → i.val = count % N

theorem loaded_none (count : Nat) : Loaded (none : Option (Fin N)) count := nofun

theorem loaded_some {i : Fin N} {count : Nat} (same : i.val = count % N) :
    Loaded (some i) count := fun _ eq => Option.some.inj eq ▸ same

theorem nelemOf_eq {head tail : Fin N} {pushes pops : Nat} (headEq : Loaded (some head) pushes)
    (tailEq : Loaded (some tail) pops) : nelemOf head tail = nelemAt N pushes pops := by
  rw [nelemOf, nelemAt, headEq head rfl, tailEq tail rfl]

theorem Tracks.nelemAt_eq (size : RingSize N) {c : Cq N} {history : List Cqe} {popped : Nat}
    (tracks : Tracks c history popped) :
    nelemAt N history.length popped = history.length - popped := by
  rw [← tracks.nelem_eq size, cqNelem, tracks.head_eq, tracks.tail_eq, nelemAt]

/-- Two counts agree only when the pushes between them are whole turns. -/
theorem dvd_of_nelemAt_eq (size : RingSize N) {pushes more pops : Nat}
    (same : nelemAt N pushes pops = nelemAt N (pushes + more) pops) : N ∣ more := by
  have reduce : ∀ count, nelemAt N count pops ≡ count + (2 ^ 32 - pops % N) [MOD N] := by
    intro count
    have below : pops % N < N := Nat.mod_lt _ (by have := size.two_le; omega)
    have bound := size.le
    have split : count % N + 2 ^ 32 - pops % N = count % N + (2 ^ 32 - pops % N) := by omega
    calc nelemAt N count pops = (count % N + 2 ^ 32 - pops % N) % 2 ^ 32 % N := rfl
      _ = (count % N + (2 ^ 32 - pops % N)) % N := by
        rw [Nat.mod_mod_of_dvd _ size.dvd, split]
      _ ≡ count % N + (2 ^ 32 - pops % N) [MOD N] := Nat.mod_modEq _ _
      _ ≡ count + (2 ^ 32 - pops % N) [MOD N] := (Nat.mod_modEq _ _).add_right _
  have turned : pushes ≡ pushes + more [MOD N] :=
    Nat.ModEq.add_right_cancel' _ ((reduce _).symm.trans (same ▸ reduce _))
  simpa using (Nat.modEq_iff_dvd' (Nat.le_add_right pushes more)).mp turned

/-! ## The invariant of the interrupted peek -/

/-- What a pop inside the peek has loaded, when nothing is pushed meanwhile:
`count` bytes are popped, of the `total` ones from `taken` on. -/
def PopPoint.Steady (point : PopPoint N) (n : Nat) (total : List Cqe) (taken count : Nat) : Prop :=
  match point with
  | .idle => count ≤ n
  | .testEmpty false head tail =>
      count < n ∧ Loaded head total.length ∧ Loaded tail (taken + count)
  | .loadTail false => count < n
  | .loadSlot false tail => count < n ∧ tail.val = (taken + count) % N
  | .storeTail tail e =>
      count < n ∧ tail.val = (taken + count) % N ∧ total[taken + count]? = some e
  | _ => False

namespace PeekNSystem

/-- What the indices say about the number of pushes, whatever was pushed. -/
def Counts (s : PeekNSystem N) (taken total : Nat) : Prop :=
  match s.point with
  | .count head tail =>
      s.client.ring.tail = taken % N ∧ Loaded tail taken ∧ (head = none → s.raced = []) ∧
      Loaded head (total - s.raced.length)
  | .saveTail sz =>
      s.client.ring.tail = taken % N ∧ sz = nelemAt N (total - s.raced.length) taken
  | .recount sz saved _ _ | .pops sz saved | .restore sz saved =>
      saved.val = taken % N ∧ sz = nelemAt N (total - s.raced.length) taken
  | .check sz _ head tail =>
      s.client.ring.tail = taken % N ∧ Loaded tail taken ∧
      ∃ counted, sz = nelemAt N counted taken ∧
        (head = none → counted + s.raced.length = total) ∧
        Loaded head (counted + s.raced.length)
  | .found _ => ∃ counted, nelemAt N counted taken = nelemAt N (counted + s.raced.length) taken
  | _ => True

/-- What holds while nothing was pushed between the two counts. -/
def Calm (s : PeekNSystem N) (n taken : Nat) (total : List Cqe) : Prop :=
  match s.point with
  | .count _ _ => s.client.popped = [] ∧ s.client.point = .idle
  | .saveTail _ => s.client.popped = [] ∧ s.client.point = .idle ∧ taken + n ≤ total.length
  | .recount _ _ head tail =>
      s.client.popped = [] ∧ s.client.point = .idle ∧ taken + n ≤ total.length ∧
      Loaded head total.length ∧ Loaded tail taken
  | .pops _ _ =>
      s.client.point.Steady n total taken s.client.popped.length ∧
      taken + n ≤ total.length ∧ total.length < taken + N
  | .restore _ _ =>
      s.client.popped.length = n ∧ s.client.point = .idle ∧ taken + n ≤ total.length ∧
      total.length < taken + N
  | .check _ v _ _ | .found v =>
      s.client.popped = [] ∧ v = (total.drop taken).take n ∧ taken + n ≤ total.length
  | .tooFew => True
  | _ => False

/-- A queue from which nothing was lost, and what the peek knows of it. -/
structure Quiet (n taken : Nat) (total : List Cqe) (s : PeekNSystem N) : Prop where
  tracks : Tracks s.client.ring total (taken + s.client.popped.length)
  order : s.client.popped = (total.drop taken).take s.client.popped.length
  calm : s.Calm n taken total

/-- The invariant of a peek that began when `history` was pushed and the first
`taken` bytes of it were popped. -/
structure Inv (n taken : Nat) (history : List Cqe) (s : PeekNSystem N) : Prop where
  head_eq : s.client.ring.head = (history ++ s.client.pushed).length % N
  raced_le : s.raced.length ≤ s.client.pushed.length
  counts : s.Counts taken (history ++ s.client.pushed).length
  quiet : s.raced = [] → s.Quiet n taken (history ++ s.client.pushed)

theorem start_inv {c : Cq N} {history : List Cqe} {taken : Nat} (tracks : Tracks c history taken)
    (n : Nat) : (start c).Inv n taken history := by
  have same : history ++ (start c).client.pushed = history := List.append_nil history
  refine ⟨?_, Nat.le_refl 0, ?_, fun _ => ⟨?_, rfl, rfl, rfl⟩⟩
  · rw [same]
    exact tracks.head_eq
  · exact ⟨tracks.tail_eq, loaded_none _, fun _ => rfl, loaded_none _⟩
  · rw [same]
    exact tracks

/-- A push that stored its byte, seen from the client. -/
theorem interrupt_of_room {s : PeekNSystem N} (room : ¬ cqFull s.client.ring = true) (x : Cqe) :
    s.interrupt x = { s with
      client := { s.client with
        ring := (s.client.ring.setSlot s.client.ring.head s.client.ring.head_lt x).setHead
          (Cq.next N s.client.ring.head) (s.client.ring.next_lt _)
        pushed := s.client.pushed ++ [x] }
      raced := if s.point.racing then s.raced ++ [x] else s.raced } := by
  rw [interrupt, cqPush, if_neg room]

theorem interrupt_of_full {s : PeekNSystem N} (full : cqFull s.client.ring = true) (x : Cqe) :
    s.interrupt x = s := by
  rw [interrupt, cqPush, if_pos full]

/-- A push between the two counts moves the head on, and the pushes in between
are one more. -/
theorem counts_racing {s after : PeekNSystem N} {taken total : Nat} (x : Cqe)
    (counts : s.Counts taken total) (racing : s.point.racing = true)
    (samePoint : after.point = s.point) (sameTail : after.client.ring.tail = s.client.ring.tail)
    (raced : after.raced = s.raced ++ [x]) (raced_le : s.raced.length ≤ total) :
    after.Counts taken (total + 1) := by
  have more : after.raced.length = s.raced.length + 1 := by rw [raced, List.length_append]; rfl
  have kept : total + 1 - after.raced.length = total - s.raced.length := by omega
  unfold Counts at counts ⊢
  rw [samePoint]
  rw [sameTail, kept]
  cases point : s.point with
  | count head tail =>
      rw [point] at counts racing
      obtain ⟨tailEq, tailLoaded, _, headLoaded⟩ := counts
      refine ⟨tailEq, tailLoaded, fun missing => ?_, headLoaded⟩
      rw [missing] at racing
      cases racing
  | check sz v head tail =>
      rw [point] at counts racing
      obtain ⟨tailEq, tailLoaded, counted, szEq, known, _⟩ := counts
      have missing : head = none := Option.isNone_iff_eq_none.mp racing
      refine ⟨tailEq, tailLoaded, counted, szEq, fun _ => ?_, ?_⟩
      · have := known missing
        omega
      · rw [missing]
        exact loaded_none _
  | saveTail | recount | pops | restore =>
      rw [point] at counts
      exact counts
  | tooFew | refused | deadlocked | miscounted | found =>
      rw [point] at racing
      cases racing

/-- Outside the two counts a push changes nothing that is loaded. -/
theorem counts_idle {s after : PeekNSystem N} {taken total : Nat} (counts : s.Counts taken total)
    (running : s.point.ended = false) (idle : ¬ s.point.racing = true)
    (samePoint : after.point = s.point) (sameTail : after.client.ring.tail = s.client.ring.tail)
    (raced : after.raced = s.raced) : after.Counts taken (total + 1) := by
  unfold Counts at counts ⊢
  rw [samePoint, sameTail, raced]
  cases point : s.point with
  | count head tail =>
      rw [point] at counts idle
      have missing : head = none := Option.not_isSome_iff_eq_none.mp idle
      refine ⟨counts.1, counts.2.1, counts.2.2.1, ?_⟩
      rw [missing]
      exact loaded_none _
  | check sz v head tail =>
      rw [point] at counts idle
      obtain ⟨tailEq, tailLoaded, counted, szEq, _, headLoaded⟩ := counts
      refine ⟨tailEq, tailLoaded, counted, szEq, fun missing => ?_, headLoaded⟩
      rw [missing] at idle
      exact absurd rfl idle
  | saveTail | recount | pops | restore =>
      rw [point] at idle
      exact absurd rfl idle
  | tooFew | refused | deadlocked | miscounted | found =>
      rw [point] at running
      cases running

theorem quiet_push (size : RingSize N) {s : PeekNSystem N} {n taken : Nat} {total : List Cqe}
    (quiet : s.Quiet n taken total) (room : ¬ cqFull s.client.ring = true)
    (running : s.point.ended = false) (idle : ¬ s.point.racing = true) (x : Cqe) :
    (s.interrupt x).Quiet n taken (total ++ [x]) := by
  obtain ⟨tracks, order, calm⟩ := quiet
  have free : total.length + 1 < taken + s.client.popped.length + N := by
    have := mt (tracks.full_iff size).mpr room
    have := tracks.window.fits
    omega
  obtain ⟨ring, ran, kept⟩ := tracks.cqPush_ok size free x
  rw [cqPush, if_neg room] at ran
  cases ran
  rw [interrupt_of_room room x]
  unfold Calm at calm
  cases point : s.point with
  | count head tail =>
      rw [point] at calm
      refine ⟨kept, ?_, ?_⟩
      · change s.client.popped = List.take s.client.popped.length _
        rw [calm.1]
        rfl
      · unfold Calm
        dsimp only
        exact calm
  | check sz v head tail =>
      rw [point] at calm
      refine ⟨kept, ?_, ?_⟩
      · change s.client.popped = List.take s.client.popped.length _
        rw [calm.1]
        rfl
      · unfold Calm
        dsimp only
        refine ⟨calm.1, ?_, ?_⟩
        · have := calm.2.2
          rw [List.drop_append_of_le_length (by omega),
            List.take_append_of_le_length (by rw [List.length_drop]; omega)]
          exact calm.2.1
        · rw [List.length_append]
          have := calm.2.2
          omega
  | saveTail | recount | pops | restore =>
      rw [point] at idle
      exact absurd rfl idle
  | tooFew | refused | deadlocked | miscounted | found =>
      rw [point] at running
      cases running

theorem interrupt_inv (size : RingSize N) {n taken : Nat} {history : List Cqe}
    {s : PeekNSystem N} (inv : s.Inv n taken history) (running : s.point.ended = false) (x : Cqe) :
    (s.interrupt x).Inv n taken history := by
  by_cases room : cqFull s.client.ring = true
  · rw [interrupt_of_full room]
    exact inv
  have moved := interrupt_of_room room x
  have grown : history ++ (s.client.pushed ++ [x]) = history ++ s.client.pushed ++ [x] :=
    (List.append_assoc ..).symm
  have longer : (history ++ s.client.pushed ++ [x]).length =
      (history ++ s.client.pushed).length + 1 := List.length_append
  have le := inv.raced_le
  have raced_le : s.raced.length ≤ (history ++ s.client.pushed).length := by
    rw [List.length_append]
    omega
  refine ⟨?_, ?_, ?_, ?_⟩
  · rw [moved]
    dsimp only
    rw [grown, longer, Cq.setHead_head, inv.head_eq, Tracks.next_mod size]
  · rw [moved]
    dsimp only
    split <;> simp only [List.length_append] <;> omega
  · rw [show history ++ (s.interrupt x).client.pushed = history ++ s.client.pushed ++ [x] by
      rw [moved]; exact grown, longer]
    by_cases racing : s.point.racing = true
    · refine counts_racing x inv.counts racing ?_ ?_ ?_ raced_le
      · rw [moved]
      · rw [moved]
        rfl
      · rw [moved]
        exact if_pos racing
    · refine counts_idle inv.counts running racing ?_ ?_ ?_
      · rw [moved]
      · rw [moved]
        rfl
      · rw [moved]
        exact if_neg racing
  · intro quiet
    by_cases racing : s.point.racing = true
    · rw [moved] at quiet
      dsimp only at quiet
      rw [if_pos racing] at quiet
      exact absurd quiet (List.append_ne_nil_of_right_ne_nil _ (List.cons_ne_nil x []))
    · rw [show history ++ (s.interrupt x).client.pushed = history ++ s.client.pushed ++ [x] by
        rw [moved]; exact grown]
      refine quiet_push size (inv.quiet ?_) room running racing x
      rw [moved] at quiet
      dsimp only at quiet
      rwa [if_neg racing] at quiet

end PeekNSystem

end Cs140e.Libpi.Circular
