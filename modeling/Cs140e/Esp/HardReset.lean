import Cs140e.Esp.Parse
import Cs140e.Esp.Readin

/-!
# Draining stale input before a reset

`esp_hard_reset` takes characters while the device has data.  `lex_getc` takes
them from the lexer's buffer, and `lex_readin` fills this buffer with whole
bursts.  So when the device is quiet the buffer may still hold what is left of
the last burst.
-/

namespace Cs140e.Esp

open Cs140e.Library
open Cs140e.Libpi.Circular

section

variable {B : Type} [Lexer B]

/-- The loop at the start of `esp_hard_reset`. -/
def drain (fuel : Nat) : Prog (Lex B) Unit := Prog.whileLoop espHasDataTimeout lexDropc fuel

/-- `lex_nstream` counts that many unread bytes. -/
def Unread (l : Lex B) (count : Nat) : Prop := LexBuf.lexNstream l.buf = .ok count l.buf

theorem Unread.unique {l : Lex B} {first second : Nat} (left : Unread l first)
    (right : Unread l second) : first = second := by
  rw [Unread, left] at right
  injection right

/-! ## What a read-in that returned has left -/

omit [Lexer B] in
theorem onBuf_returned {α : Type} {program : Prog B α} {l after : Lex B} {value : α}
    (returned : onBuf program l = .ok value after) :
    program l.buf = .ok value after.buf ∧ after.h = l.h := by
  rw [onBuf, Prog.onPart] at returned
  split at returned
  · case h_1 ran =>
      cases returned
      exact ⟨ran, rfl⟩
  · cases returned

/-- Counting changes nothing, and the tests for an empty lexer agree with it. -/
structure Counting (B : Type) [LexBuf B] : Prop where
  nstream : ∀ {buf after : B} {count}, LexBuf.lexNstream buf = .ok count after → after = buf
  empty : ∀ {buf after : B} {verdict}, LexBuf.lexEmpty buf = .ok verdict after →
    after = buf ∧ ∃ count, LexBuf.lexNstream buf = .ok count buf ∧ (verdict = true ↔ count = 0)

variable (counting : Counting B)

include counting

theorem unread_of_nstream {l after : Lex B} {count : Nat}
    (returned : lexNstream l = .ok count after) : after = l ∧ Unread l count := by
  obtain ⟨counted, sameH⟩ := onBuf_returned returned
  obtain ⟨buf, h⟩ := l
  obtain ⟨bufAfter, hAfter⟩ := after
  cases counting.nstream counted
  cases sameH
  exact ⟨rfl, counted⟩

theorem unread_of_empty {l after : Lex B} {verdict : Bool}
    (returned : lexEmpty l = .ok verdict after) :
    after = l ∧ ∃ count, Unread l count ∧ (verdict = true ↔ count = 0) := by
  obtain ⟨tested, sameH⟩ := onBuf_returned returned
  obtain ⟨buf, h⟩ := l
  obtain ⟨bufAfter, hAfter⟩ := after
  obtain ⟨rfl, count, counted, iff⟩ := counting.empty tested
  cases sameH
  exact ⟨rfl, count, counted, iff⟩

/-- The assertion in the loop of `lex_readin` says how much there is. -/
theorem readBurst_unread {fuel nbytes total : Nat} {l after : Lex B}
    (data : ∃ chunk rest, l.h = .data chunk :: rest)
    (returned : readBurst fuel nbytes l = .ok total after) :
    total = nbytes + (burst l.h).1.length ∧ after.h = (burst l.h).2 ∧ Unread after total := by
  induction fuel generalizing nbytes l with
  | zero => cases returned
  | succ fuel ih =>
      obtain ⟨buf, h⟩ := l
      obtain ⟨chunk, rest, same⟩ := data
      dsimp only at same
      subst same
      have read : espRead ⟨buf, .data chunk :: rest⟩ = .ok chunk.bytes ⟨buf, rest⟩ := rfl
      have some : ¬ chunk.bytes.length = 0 := fun none =>
        chunk.nonempty (List.eq_nil_of_length_eq_zero none)
      have lengths : (burst (.data chunk :: rest)).1.length =
          chunk.bytes.length + (burst rest).1.length := List.length_append
      rw [readBurst, Prog.bind_of_ok read, if_neg some] at returned
      obtain ⟨_, pushed, push, counts⟩ := Prog.ok_of_bind_ok returned
      obtain ⟨_, sameH⟩ := onBuf_returned push
      obtain ⟨count, counted, count', checks⟩ := Prog.ok_of_bind_ok counts
      obtain ⟨rfl, unread⟩ := unread_of_nstream counting count'
      obtain ⟨_, checked, check, goesOn⟩ := Prog.ok_of_bind_ok checks
      obtain ⟨equal, rfl⟩ := Prog.holds_of_assertThat_ok check
      rw [beq_iff_eq] at equal
      obtain ⟨stored, rest'⟩ := checked
      dsimp only at sameH
      subst sameH
      cases rest' with
      | nil =>
          cases goesOn
          refine ⟨?_, rfl, equal ▸ unread⟩
          rw [lengths]
          rfl
      | cons poll rest =>
          cases poll with
          | quiet =>
              cases goesOn
              refine ⟨?_, rfl, equal ▸ unread⟩
              rw [lengths]
              rfl
          | data next =>
              obtain ⟨totalEq, hEq, unreadAfter⟩ := ih ⟨next, rest, rfl⟩ goesOn
              refine ⟨?_, hEq, unreadAfter⟩
              rw [totalEq, lengths, Nat.add_assoc]

/-- What a refill that returned has done. -/
inductive Refilled (l : Lex B) : Lex B → Prop where
  | kept {count : Nat} (unread : Unread l (count + 1)) : Refilled l l
  | read {rest : List Poll} {after : Lex B} (empty : Unread l 0)
      (data : skipQuiet? l.h = some rest) (hEq : after.h = (burst rest).2)
      (unread : Unread after (burst rest).1.length) : Refilled l after

theorem lexReadin_unread {l after : Lex B} {total : Nat}
    (returned : lexReadin l = .ok total after) :
    ∃ rest, skipQuiet? l.h = some rest ∧ after.h = (burst rest).2 ∧
      Unread after (burst rest).1.length := by
  obtain ⟨_, l1, empty, asserts1⟩ := Prog.ok_of_bind_ok returned
  obtain ⟨rfl, _⟩ := unread_of_empty counting empty
  obtain ⟨_, l2, assert1, counts⟩ := Prog.ok_of_bind_ok asserts1
  obtain ⟨_, rfl⟩ := Prog.holds_of_assertThat_ok assert1
  obtain ⟨_, l3, count, asserts2⟩ := Prog.ok_of_bind_ok counts
  obtain ⟨rfl, _⟩ := unread_of_nstream counting count
  obtain ⟨_, l4, assert2, waits⟩ := Prog.ok_of_bind_ok asserts2
  obtain ⟨_, rfl⟩ := Prog.holds_of_assertThat_ok assert2
  obtain ⟨_, waited, wait, reads⟩ := Prog.ok_of_bind_ok waits
  rw [waitForData] at wait
  split at wait
  · case h_1 rest data =>
      cases wait
      obtain ⟨totalEq, hEq, unread⟩ := readBurst_unread counting (data_of_skipQuiet data) reads
      rw [totalEq, Nat.zero_add] at unread
      exact ⟨rest, data, hEq, unread⟩
  · cases wait

theorem lexRefill_refilled {l after : Lex B} (returned : lexRefill l = .ok () after) :
    Refilled l after := by
  obtain ⟨verdict, tested, empty, branches⟩ := Prog.ok_of_bind_ok returned
  obtain ⟨rfl, count, unread, iff⟩ := unread_of_empty counting empty
  have checked : ∀ {state : Lex B},
      (do Prog.assertThat (!(← lexEmpty)) "!lex_empty(l)" : Prog (Lex B) Unit) state =
        .ok () after → after = state := by
    intro state check
    obtain ⟨_, same, emptyAgain, assertion⟩ := Prog.ok_of_bind_ok check
    obtain ⟨rfl, _⟩ := unread_of_empty counting emptyAgain
    exact (Prog.holds_of_assertThat_ok assertion).2
  cases verdict with
  | false =>
      cases checked branches
      cases count with
      | zero => exact absurd (iff.mpr rfl) Bool.false_ne_true
      | succ count => exact .kept unread
  | true =>
      rw [iff.mp rfl] at unread
      obtain ⟨total, filled, readin, check⟩ := Prog.ok_of_bind_ok branches
      cases checked check
      obtain ⟨rest, data, hEq, unreadAfter⟩ := lexReadin_unread counting readin
      exact .read unread data hEq unreadAfter

end

/-! ## Taking a character -/

/-- What taking a character that was returned has left: one byte less, or one
less than the next burst has. -/
def GetcTakes (B : Type) [Lexer B] : Prop :=
  ∀ {l after : Lex B} {c : UInt8}, lexGetc l = .ok c after →
    (∃ count, Unread l (count + 1) ∧ Unread after count ∧ after.h = l.h) ∨
    (Unread l 0 ∧ ∃ rest, skipQuiet? l.h = some rest ∧ after.h = (burst rest).2 ∧
      Unread after ((burst rest).1.length - 1))

namespace LexSimple

theorem nstream_returned {buf after : LexSimple} {count : Nat}
    (returned : nstream buf = .ok count after) :
    after = buf ∧ buf.pos ≤ buf.n ∧ count = buf.n - buf.pos := by
  rw [nstream, Prog.bind_of_ok (Prog.get_apply buf)] at returned
  obtain ⟨_, _, assertion, ends⟩ := Prog.ok_of_bind_ok returned
  obtain ⟨inside, rfl⟩ := Prog.holds_of_assertThat_ok assertion
  cases ends
  exact ⟨rfl, of_decide_eq_true inside, rfl⟩

theorem nstream_of {buf : LexSimple} (inside : buf.pos ≤ buf.n) :
    nstream buf = .ok (buf.n - buf.pos) buf := by
  rw [nstream, Prog.bind_of_ok (Prog.get_apply buf),
    Prog.bind_of_ok (Prog.assertThat_of _ _ (decide_eq_true inside))]
  rfl

theorem counting : Counting LexSimple where
  nstream := fun returned => (nstream_returned returned).1
  empty := by
    intro buf after verdict returned
    change LexSimple.empty buf = _ at returned
    rw [empty, Prog.bind_of_ok (Prog.get_apply buf)] at returned
    obtain ⟨_, _, assertion, ends⟩ := Prog.ok_of_bind_ok returned
    obtain ⟨inside, rfl⟩ := Prog.holds_of_assertThat_ok assertion
    rw [decide_eq_true_iff] at inside
    cases ends
    refine ⟨rfl, _, nstream_of inside, ?_⟩
    rw [beq_iff_eq]
    omega

theorem current_returned {buf after : LexSimple} {c : UInt8}
    (returned : current buf = .ok c after) : after = buf ∧ buf.pos < buf.n := by
  rw [current, Prog.bind_of_ok (Prog.get_apply buf)] at returned
  cases byte : buf.stream[buf.pos]? with
  | none => simp only [byte] at returned; cases returned
  | some d =>
      simp only [byte] at returned
      cases returned
      exact ⟨rfl, (List.getElem?_eq_some_iff.mp byte).1⟩

theorem takes : GetcTakes LexSimple := by
  intro l after c returned
  change getc l = _ at returned
  rw [getc] at returned
  obtain ⟨_, filled, refill, reads⟩ := Prog.ok_of_bind_ok returned
  obtain ⟨_, found, read, moves⟩ := Prog.ok_of_bind_ok reads
  obtain ⟨_, moved, move, ends⟩ := Prog.ok_of_bind_ok moves
  cases ends
  obtain ⟨here, sameH⟩ := onBuf_returned read
  obtain ⟨step, sameH'⟩ := onBuf_returned move
  obtain ⟨same, below⟩ := current_returned here
  injection step with _ moved
  rw [same] at moved
  have left : ∀ count, Unread filled count → Unread after (count - 1) := by
    intro count unread
    obtain ⟨_, _, rfl⟩ := nstream_returned unread
    rw [Unread, ← moved]
    exact @nstream_of ⟨filled.buf.pos + 1, filled.buf.stream⟩ below
  cases lexRefill_refilled counting refill with
  | kept unread => exact .inl ⟨_, unread, left _ unread, by rw [sameH', sameH]⟩
  | read empty data hEq unread =>
      exact .inr ⟨empty, _, data, by rw [sameH', sameH, hEq], left _ unread⟩

end LexSimple

namespace LexCirc

theorem cqNelem_popped {c : Cq cqN} (some : ¬ cqEmpty c = true) :
    cqNelem (c.setTail (Cq.next cqN c.tail) (c.next_lt _)) = cqNelem c - 1 := by
  have head := c.head_lt
  have tail := c.tail_lt
  have size : cqN = 1024 := rfl
  rw [cqEmpty, beq_iff_eq] at some
  simp only [cqNelem, unsignedSub, unsigned, Cq.next, Cq.setTail_head, Cq.setTail_tail, size] at *
  omega

theorem counting : Counting LexCirc where
  nstream := by
    intro buf after count returned
    injection returned with _ same
    exact same.symm
  empty := by
    intro buf after verdict returned
    injection returned with verdictEq same
    refine ⟨same.symm, cqNelem buf.stream, rfl, ?_⟩
    have head := buf.stream.head_lt
    have tail := buf.stream.tail_lt
    have size : cqN = 1024 := rfl
    rw [← verdictEq, cqEmpty, beq_iff_eq]
    simp only [cqNelem, unsignedSub, unsigned, size] at *
    omega

theorem onStream_returned {α : Type} {program : Prog (Cq cqN) α} {l after : LexCirc} {value : α}
    (returned : onStream program l = .ok value after) :
    program l.stream = .ok value after.stream := by
  rw [onStream, Prog.onPart] at returned
  split at returned
  · case h_1 ran =>
      cases returned
      exact ran
  · cases returned

theorem cqPop_returned {c after : Cq cqN} {e : Cqe} (returned : cqPop c = .ok e after) :
    cqNelem after = cqNelem c - 1 := by
  obtain ⟨found, popped, pop, ends⟩ := Prog.ok_of_bind_ok returned
  rw [cqPopNonblock] at pop
  split at pop
  · cases pop
    cases ends
  · case isFalse some =>
      cases pop
      cases ends
      exact cqNelem_popped some

theorem unread_iff {l : Lex LexCirc} {count : Nat} :
    Unread l count ↔ cqNelem l.buf.stream = count := by
  constructor
  · intro unread
    injection unread
  · rintro rfl
    rfl

theorem takes : GetcTakes LexCirc := by
  intro l after c returned
  change getc l = _ at returned
  rw [getc] at returned
  obtain ⟨_, ticked, tick, refills⟩ := Prog.ok_of_bind_ok returned
  obtain ⟨_, filled, refill, pops⟩ := Prog.ok_of_bind_ok refills
  obtain ⟨counted, sameH⟩ := onBuf_returned tick
  obtain ⟨popped, sameH'⟩ := onBuf_returned pops
  injection counted with _ counted
  have start : ∀ count, Unread ticked count → Unread l count := by
    intro count unread
    rw [unread_iff, ← counted] at unread
    exact unread_iff.mpr unread
  have left : ∀ count, Unread filled count → Unread after (count - 1) := by
    intro count unread
    rw [unread_iff] at unread ⊢
    rw [cqPop_returned (onStream_returned popped), unread]
  cases lexRefill_refilled counting refill with
  | kept unread => exact .inl ⟨_, start _ unread, left _ unread, by rw [sameH', sameH]⟩
  | read empty data hEq unread =>
      exact .inr ⟨start _ empty, _, by rw [← sameH]; exact data, by rw [sameH', hEq],
        left _ unread⟩

end LexCirc

/-! ## The last burst -/

/-- The last burst that comes before the line is found quiet twice: at the end
of the burst and by the loop.  `inside` tells whether a burst is going on, `last`
is the burst so far. -/
def lastBurst (inside : Bool) (last : Option (List UInt8)) : List Poll → Option (List UInt8)
  | [] => last
  | .quiet :: rest => if inside then lastBurst false last rest else last
  | .data chunk :: rest =>
      if inside then lastBurst true (some (last.getD [] ++ chunk.bytes)) rest
      else lastBurst true (some chunk.bytes) rest

/-- The last burst has one byte; if the line is quiet at once, nothing is buffered. -/
def BurstOfOne {B : Type} [Lexer B] (l : Lex B) : Prop :=
  match lastBurst false none l.h with
  | none => Unread l 0
  | some bytes => bytes.length = 1

/-! ## The end of the loop -/

/-- The rest of a burst goes on with the device's answers behind it. -/
theorem lastBurst_inside (last : List UInt8) (h : List Poll) :
    lastBurst true (some last) h = lastBurst false (some (last ++ (burst h).1)) (burst h).2 := by
  induction h generalizing last with
  | nil => rw [burst, List.append_nil]; rfl
  | cons poll rest ih =>
      cases poll with
      | quiet => rw [burst, List.append_nil]; rfl
      | data chunk =>
          rw [lastBurst, if_pos rfl, Option.getD_some, ih, burst, List.append_assoc]

/-- What came before the last burst does not matter. -/
theorem lastBurst_data (last : Option (List UInt8)) (chunk : Chunk) (rest : List Poll) :
    lastBurst false last (.data chunk :: rest) = lastBurst false
      (some (burst (.data chunk :: rest)).1) (burst (.data chunk :: rest)).2 := by
  rw [lastBurst, if_neg Bool.false_ne_true, lastBurst_inside]
  rfl

theorem lastBurst_isSome (inside : Bool) (last : List UInt8) (h : List Poll) :
    (lastBurst inside (some last) h).isSome := by
  induction h generalizing inside last with
  | nil => rfl
  | cons poll rest ih =>
      cases poll <;> cases inside
      · rfl
      · exact ih _ _
      · exact ih _ _
      · exact ih _ _

/-- Behind a burst either the line is quiet or a burst comes that is later. -/
theorem lastBurst_some (last : List UInt8) (h : List Poll) :
    lastBurst false (some last) h = some ((lastBurst false none h).getD last) := by
  cases h with
  | nil => rfl
  | cons poll rest =>
      cases poll with
      | quiet => rfl
      | data chunk =>
          rw [lastBurst_data, lastBurst_data none]
          obtain ⟨bytes, found⟩ := Option.isSome_iff_exists.mp (lastBurst_isSome false
            (burst (.data chunk :: rest)).1 (burst (.data chunk :: rest)).2)
          rw [found]
          rfl

theorem burstOfOne_data {B : Type} [Lexer B] {l : Lex B} {chunk : Chunk} {rest : List Poll}
    (data : l.h = .data chunk :: rest) :
    BurstOfOne l ↔
      ((lastBurst false none (burst l.h).2).getD (burst l.h).1).length = 1 := by
  rw [BurstOfOne, data, lastBurst_data, lastBurst_some]

/-- One byte of a burst is what the loop takes after it has read the burst. -/
theorem burstOfOne_read {B : Type} [Lexer B] {l middle : Lex B} {chunk : Chunk}
    {rest : List Poll} (data : l.h = .data chunk :: rest) (hEq : middle.h = (burst l.h).2)
    (unread : Unread middle ((burst l.h).1.length - 1)) : BurstOfOne middle ↔ BurstOfOne l := by
  have some : 0 < (burst l.h).1.length := by
    rw [data]
    exact List.length_pos_of_ne_nil fun none =>
      chunk.nonempty (List.append_eq_nil_iff.mp none).1
  rw [burstOfOne_data data, BurstOfOne, hEq]
  cases lastBurst false none (burst l.h).2 with
  | some bytes => exact Iff.rfl
  | none =>
      dsimp only [Option.getD_none]
      constructor
      · intro empty
        have same := Unread.unique empty unread
        omega
      · intro one
        rw [one] at unread
        exact unread

theorem drain_unread {B : Type} [Lexer B] (takes : GetcTakes B) {fuel : Nat} {l after : Lex B}
    (returned : drain fuel l = .ok () after) : Unread after 0 ↔ BurstOfOne l := by
  induction fuel generalizing l with
  | zero => cases returned
  | succ fuel ih =>
      obtain ⟨buf, h⟩ := l
      cases h with
      | nil =>
          have tested : espHasDataTimeout (⟨buf, []⟩ : Lex B) = .ok false ⟨buf, []⟩ := rfl
          rw [drain, Prog.whileLoop_of_false fuel tested] at returned
          cases returned
          exact Iff.rfl
      | cons poll rest =>
          cases poll with
          | quiet =>
              have tested : espHasDataTimeout (⟨buf, .quiet :: rest⟩ : Lex B) =
                  .ok false ⟨buf, rest⟩ := rfl
              rw [drain, Prog.whileLoop_of_false fuel tested] at returned
              cases returned
              exact Iff.rfl
          | data chunk =>
              have tested : espHasDataTimeout (⟨buf, .data chunk :: rest⟩ : Lex B) =
                  .ok true ⟨buf, .data chunk :: rest⟩ := rfl
              rw [drain] at returned
              cases dropped : lexDropc (⟨buf, .data chunk :: rest⟩ : Lex B) with
              | error stop stopped =>
                  rw [Prog.whileLoop_of_body_error fuel tested dropped] at returned
                  cases returned
              | ok _ middle =>
                  rw [Prog.whileLoop_of_true fuel tested dropped] at returned
                  obtain ⟨c, taken, getc, ends⟩ := Prog.ok_of_bind_ok dropped
                  cases ends
                  rw [ih returned]
                  obtain ⟨_, _, _, sameH⟩ | ⟨_, _, data, hEq, unread⟩ := takes getc
                  · rw [burstOfOne_data sameH, burstOfOne_data rfl, sameH]
                  · cases data
                    exact burstOfOne_read rfl hEq unread

/-- For every lexer and every history of the device: when the loop at the start
of `esp_hard_reset` ends, the lexer is empty if and only if the last burst
before the line was found quiet has one byte, or, if the line was quiet at once,
the lexer was empty before. -/
theorem esp_hard_reset_drains_iff (fuel : Nat) :
    (∀ l after : Lex LexSimple, drain fuel l = .ok () after →
      (Unread after 0 ↔ BurstOfOne l)) ∧
    (∀ l after : Lex LexCirc, drain fuel l = .ok () after →
      (Unread after 0 ↔ BurstOfOne l)) :=
  ⟨fun _ _ returned => drain_unread LexSimple.takes returned,
    fun _ _ returned => drain_unread LexCirc.takes returned⟩

/-- A burst of two bytes, one of a single byte, and silence. -/
def staleThenOne : List Poll :=
  [.data ⟨ascii "OK", by decide, by decide⟩, .quiet, .data ⟨ascii ">", by decide, by decide⟩]

theorem esp_hard_reset_drains_iff_of_staleThenOne :
    ∃ after, drain 4 (⟨LexCirc.init, staleThenOne⟩ : Lex LexCirc) = .ok () after ∧
      Unread after 0 := by
  have ended : returned? (drain 4 (⟨LexCirc.init, staleThenOne⟩ : Lex LexCirc)) = some () := by
    decide +kernel
  cases ran : drain 4 (⟨LexCirc.init, staleThenOne⟩ : Lex LexCirc) with
  | error stop stopped => rw [ran] at ended; cases ended
  | ok _ after =>
      exact ⟨after, rfl, ((esp_hard_reset_drains_iff 4).2 _ after ran).mpr rfl⟩

/-- A burst of two bytes, and silence. -/
def staleBurst : List Poll := [.data ⟨ascii "OK", by decide, by decide⟩]

/-- The loop ends with an unread byte, which the next `lex_getc` delivers. -/
theorem stale_byte_is_kept :
    ∃ after, drain 4 (⟨LexCirc.init, staleBurst⟩ : Lex LexCirc) = .ok () after ∧
      ¬ Unread after 0 ∧ returned? (lexGetc after) = some 75 := by
  have counts : returned? ((drain 4 >>= fun _ => lexNstream)
      (⟨LexCirc.init, staleBurst⟩ : Lex LexCirc)) = some 1 := by decide +kernel
  have delivers : returned? ((drain 4 >>= fun _ => lexGetc)
      (⟨LexCirc.init, staleBurst⟩ : Lex LexCirc)) = some 75 := by decide +kernel
  cases ran : drain 4 (⟨LexCirc.init, staleBurst⟩ : Lex LexCirc) with
  | error stop stopped =>
      rw [Prog.bind_of_error ran] at counts
      cases counts
  | ok _ after =>
      rw [Prog.bind_of_ok ran] at counts delivers
      refine ⟨after, rfl, fun unread => ?_, delivers⟩
      have counted : returned? (lexNstream after) = some (cqNelem after.buf.stream) := rfl
      rw [counted, LexCirc.unread_iff.mp unread] at counts
      cases counts

end Cs140e.Esp
