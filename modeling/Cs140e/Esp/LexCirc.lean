import Cs140e.Libpi.CircularHistory
import Cs140e.Esp.LexSimple

/-!
# The lexer in the ring against the lexer that keeps all input

The ring remembers the last `CQ_N - 1` bytes.  As long as no burst is longer
and no checkpoint lies further back, every operation gives the same result
with both lexers.
-/

namespace Cs140e.Esp

open Cs140e.Library
open Cs140e.Libpi.Circular

theorem cqN_ringSize : RingSize cqN := ⟨10, by decide, by decide, rfl⟩

/-! ## One operation -/

/-- The ring tracks everything the other lexer has kept, up to its position. -/
inductive Mirrors (circ : Lex LexCirc) (simple : Lex LexSimple) : Prop where
  | intro (before buffered : List UInt8)
      (simpleEq : simple.buf = ⟨before.length, before ++ buffered⟩)
      (tracks : Tracks circ.buf.stream (before ++ buffered) before.length)
      (hEq : circ.h = simple.h)
      (small : (before ++ buffered ++ arriving simple.h).length < lexMaxbuf)

namespace LexCirc

/-- The ring in which `buffered` comes after everything that was consumed. -/
def Holds (before : List UInt8) (buf : LexCirc) (buffered : List UInt8) : Prop :=
  Tracks buf.stream (before ++ buffered) before.length

theorem onStream_of_ok {α : Type} {program : Prog (Cq cqN) α} {l : LexCirc} {value : α}
    {after : Cq cqN} (returned : program l.stream = .ok value after) :
    onStream program l = .ok value { l with stream := after } :=
  Prog.onPart_of_ok returned

theorem onStream_of_error {α : Type} {program : Prog (Cq cqN) α} {l : LexCirc} {stop : Stop}
    {after : Cq cqN} (stopped : program l.stream = .error stop after) :
    onStream program l = .error stop { l with stream := after } :=
  Prog.onPart_of_error stopped

theorem storage (before : List UInt8) : Storage (Holds before) (cqN - 1) where
  nstream := by
    intro buf bytes holds
    have count := holds.nelem_eq cqN_ringSize
    rw [List.length_append, Nat.add_sub_cancel_left] at count
    rw [← count]
    rfl
  pushN := by
    intro buf bytes more holds some fits
    obtain ⟨stream, pushed, tracks⟩ := holds.cqPushN_ok cqN_ringSize more (by
      rw [List.length_append]
      have : cqN = 1024 := rfl
      omega)
    refine ⟨{ buf with stream := stream }, ?_, ?_⟩
    · change LexCirc.pushN more buf = _
      rw [pushN, Prog.bind_of_ok (onStream_of_ok pushed)]
      rfl
    · rw [List.append_assoc] at tracks
      exact tracks
  lexEmpty := by
    intro buf bytes holds
    have verdict : cqEmpty buf.stream = bytes.isEmpty := by
      rw [Bool.eq_iff_iff, holds.empty_iff, List.isEmpty_iff, List.length_append]
      exact ⟨fun same => List.eq_nil_of_length_eq_zero (by omega), fun none => by rw [none]; rfl⟩
    rw [← verdict]
    rfl

end LexCirc

/-- What the next refill reads in fits into the ring. -/
def BurstFits (l : Lex LexSimple) : Prop :=
  l.buf.pos = l.buf.n → ∀ rest, skipQuiet? l.h = some rest → (burst rest).1.length ≤ cqN - 1

/-- The lexers still correspond, and the input kept since `start` is kept. -/
def Later (start : Lex LexSimple) (circ : Lex LexCirc) (simple : Lex LexSimple) : Prop :=
  Mirrors circ simple ∧ start.buf.n ≤ simple.buf.n

namespace Mirrors

variable {circ : Lex LexCirc} {simple : Lex LexSimple}

/-- Both lexers refill alike: both block, or both have the same next byte. -/
theorem refill (mirrors : Mirrors circ simple) (fits : BurstFits simple) :
    (∃ circAfter simpleAfter, lexRefill circ = .error .blocked circAfter ∧
        lexRefill simple = .error .blocked simpleAfter) ∨
      ∃ before c buffered h stream, lexRefill circ = .ok () ⟨stream, h⟩ ∧
        lexRefill simple = .ok () ⟨⟨before.length, before ++ c :: buffered⟩, h⟩ ∧
        Tracks stream.stream (before ++ c :: buffered) before.length ∧
        (before ++ c :: buffered ++ arriving h).length < lexMaxbuf ∧
        simple.buf.n ≤ (before ++ c :: buffered).length := by
  obtain ⟨circBuf, h⟩ := circ
  obtain ⟨simpleBuf, simpleH⟩ := simple
  obtain ⟨before, buffered, rfl, tracks, rfl, small⟩ := mirrors
  dsimp only at tracks small
  have lengths : (before ++ buffered ++ arriving h).length =
      before.length + (buffered.length + (arriving h).length) := by
    rw [List.append_assoc, List.length_append, List.length_append]
  have simpleStorage := LexSimple.storage before (by omega)
  have circStorage := LexCirc.storage before
  cases buffered with
  | cons c buffered =>
      have some := List.cons_ne_nil c buffered
      have circHolds : LexCirc.Holds before circBuf (c :: buffered) := tracks
      have simpleHolds :
          LexSimple.Holds before ⟨before.length, before ++ c :: buffered⟩ (c :: buffered) := rfl
      exact .inr ⟨before, c, buffered, h, circBuf, lexRefill_nonempty circStorage circHolds some,
        lexRefill_nonempty simpleStorage simpleHolds some, tracks, small, Nat.le_refl _⟩
  | nil =>
      cases data : skipQuiet? h with
      | none =>
          exact .inl ⟨_, _, lexRefill_blocked circStorage tracks data,
            lexRefill_blocked simpleStorage rfl data⟩
      | some rest =>
          have bytes := (arriving_burst rest).trans (arriving_skipQuiet data)
          have ringFits : (burst rest).1.length ≤ cqN - 1 := by
            refine fits ?_ rest data
            change before.length = (before ++ []).length
            rw [List.append_nil]
          have bufFits : (burst rest).1.length ≤ lexMaxbuf - 1 - before.length := by
            have := congrArg List.length bytes
            rw [List.length_append] at this
            rw [List.length_nil] at lengths
            omega
          obtain ⟨stream, circRan, circHolds⟩ := lexRefill_ok circStorage tracks data ringFits
          obtain ⟨buf, simpleRan, simpleHolds⟩ := lexRefill_ok simpleStorage rfl data bufFits
          rw [LexSimple.Holds] at simpleHolds
          subst simpleHolds
          cases read : (burst rest).1 with
          | nil => exact absurd read (burst_ne_nil data)
          | cons c buffered =>
              rw [LexCirc.Holds, read] at circHolds
              rw [read] at simpleRan bytes
              refine .inr ⟨before, c, buffered, _, stream, circRan, simpleRan, circHolds, ?_, ?_⟩
              · rw [List.append_assoc, bytes]
                rwa [List.append_nil] at small
              · change (before ++ []).length ≤ _
                rw [List.append_nil, List.length_append]
                exact Nat.le_add_right _ _

/-- Counting a call of `lex_getc` changes nothing that matters. -/
theorem counted (mirrors : Mirrors circ simple) :
    Mirrors { circ with buf := { circ.buf with n := unsigned (circ.buf.n + 1) } } simple := by
  obtain ⟨before, buffered, simpleEq, tracks, hEq, small⟩ := mirrors
  exact ⟨before, buffered, simpleEq, tracks, hEq, small⟩

theorem getc (mirrors : Mirrors circ simple) (fits : BurstFits simple) :
    Agree (Later simple) (lexGetc circ) (lexGetc simple) := by
  change Agree (Later simple) (LexCirc.getc circ) (LexSimple.getc simple)
  have counted := mirrors.counted
  rw [LexCirc.getc, LexSimple.getc]
  change Agree (Later simple) ((lexRefill >>= _) _) _
  rcases counted.refill fits with ⟨_, _, circStopped, simpleStopped⟩ |
    ⟨before, c, buffered, h, stream, circRan, simpleRan, tracks, small, grows⟩
  · rw [Prog.bind_of_error circStopped, Prog.bind_of_error simpleStopped]
    exact .stopped _ _ _
  · have nonempty : before.length < (before ++ c :: buffered).length := by
      rw [List.length_append, List.length_cons]
      omega
    obtain ⟨after, popped, tracksAfter⟩ := tracks.cqPop_ok cqN_ringSize nonempty
    have oldest : (before ++ c :: buffered)[before.length] = c := by
      rw [List.getElem_append_right (Nat.le_refl _)]
      simp only [Nat.sub_self, List.getElem_cons_zero]
    rw [oldest] at popped
    rw [Prog.bind_of_ok circRan, Prog.bind_of_ok simpleRan,
      onBuf_of_ok (LexCirc.onStream_of_ok popped) h,
      Prog.bind_of_ok (onBuf_of_ok (LexSimple.current_eq before c buffered) h)]
    have split : before ++ c :: buffered = before ++ [c] ++ buffered := by
      rw [List.append_assoc]
      rfl
    have position : before.length + 1 = (before ++ [c]).length := by
      rw [List.length_append, List.length_singleton]
    rw [split] at tracksAfter small
    rw [position] at tracksAfter
    refine .returned c ⟨⟨before ++ [c], buffered, ?_, tracksAfter, rfl, small⟩, grows⟩
    change LexSimple.mk _ _ = _
    rw [split, position]

theorem peek (mirrors : Mirrors circ simple) (fits : BurstFits simple) :
    Agree (Later simple) (lexPeek circ) (lexPeek simple) := by
  change Agree (Later simple) (LexCirc.peek circ) (LexSimple.peek simple)
  rw [LexCirc.peek, LexSimple.peek]
  rcases mirrors.refill fits with ⟨_, _, circStopped, simpleStopped⟩ |
    ⟨before, c, buffered, h, stream, circRan, simpleRan, tracks, small, grows⟩
  · rw [Prog.bind_of_error circStopped, Prog.bind_of_error simpleStopped]
    exact .stopped _ _ _
  · have peeked := tracks.cqPeek_eq
    have oldest : (before ++ c :: buffered)[before.length]? = some c := by
      rw [List.getElem?_append_right (Nat.le_refl _), Nat.sub_self]
      rfl
    rw [oldest] at peeked
    rw [Prog.bind_of_ok circRan, Prog.bind_of_ok simpleRan,
      Prog.bind_of_ok (onBuf_of_ok (LexCirc.onStream_of_ok peeked) h),
      onBuf_of_ok (LexSimple.current_eq before c buffered) h]
    exact .returned c ⟨⟨before, c :: buffered, rfl, tracks, rfl, small⟩, grows⟩

end Mirrors

/-! ## Runs of operations -/

inductive LexOp where
  | getc
  | peek
  | getCkpt
  /-- Restore the checkpoint that was taken as the `index`-th. -/
  | restoreCkpt (index : Nat)

/-- A lexer and the checkpoints its user has taken so far. -/
structure LexRun (B : Type) [LexBuf B] where
  lex : Lex B
  ckpts : List (Ckpt B)

section

variable {B : Type} [Lexer B]

def LexRun.onLex {α : Type} (program : Prog (Lex B) α) : Prog (LexRun B) α :=
  Prog.onPart LexRun.lex (fun lex run => { run with lex := lex }) program

/-- The character an operation returns, if it returns one. -/
def LexOp.step (op : LexOp) : Prog (LexRun B) (Option UInt8) :=
  match op with
  | .getc => do
      let c ← LexRun.onLex lexGetc
      pure (some c)
  | .peek => do
      let c ← LexRun.onLex lexPeek
      pure (some c)
  | .getCkpt => do
      let ckpt ← LexRun.onLex lexGetCkpt
      modify fun run => { run with ckpts := run.ckpts ++ [ckpt] }
      pure none
  | .restoreCkpt index => do
      match (← get).ckpts[index]? with
      | some ckpt =>
          LexRun.onLex (lexRestoreCkpt ckpt)
          pure none
      | none => throw (.undefined "no such checkpoint")

end

/-- The operation stays within what the ring remembers, and a restore names a
checkpoint that was taken. -/
def LexOp.Fits (op : LexOp) (run : LexRun LexSimple) : Prop :=
  match op with
  | .getc => BurstFits run.lex
  | .peek => BurstFits run.lex
  | .getCkpt => True
  | .restoreCkpt index =>
      ∃ pos : Nat, run.ckpts[index]? = some pos ∧ run.lex.buf.n ≤ pos + (cqN - 1)

/-- Checkpoints of both lexers stand for the same positions. -/
structure MirrorsRun (circ : LexRun LexCirc) (simple : LexRun LexSimple) : Prop where
  lex : Mirrors circ.lex simple.lex
  ckpts : List.Forall₂ (fun (ckpt : CircCkpt) (pos : Nat) => ckpt.tail = pos % cqN)
    circ.ckpts simple.ckpts
  known : ∀ pos : Nat, pos ∈ (simple.ckpts : List Nat) → pos ≤ simple.lex.buf.n

/-- An operation on the lexers that leaves the checkpoints alone. -/
theorem MirrorsRun.onLex {circ : LexRun LexCirc} {simple : LexRun LexSimple} {α : Type}
    {left : Prog (Lex LexCirc) α} {right : Prog (Lex LexSimple) α}
    (mirrors : MirrorsRun circ simple)
    (agree : Agree (Later simple.lex) (left circ.lex) (right simple.lex)) :
    Agree MirrorsRun (LexRun.onLex left circ) (LexRun.onLex right simple) := by
  generalize leftEq : left circ.lex = leftOutcome at agree
  generalize rightEq : right simple.lex = rightOutcome at agree
  cases agree with
  | returned value relates =>
      rw [LexRun.onLex, LexRun.onLex, Prog.onPart_of_ok leftEq, Prog.onPart_of_ok rightEq]
      exact .returned value ⟨relates.1, mirrors.ckpts, fun pos mem =>
        Nat.le_trans (mirrors.known pos mem) relates.2⟩
  | stopped stop leftState rightState =>
      rw [LexRun.onLex, LexRun.onLex, Prog.onPart_of_error leftEq, Prog.onPart_of_error rightEq]
      exact .stopped stop _ _

/-- The checkpoint both lexers take is their position. -/
theorem MirrorsRun.getCkpt {circ : LexRun LexCirc} {simple : LexRun LexSimple}
    (mirrors : MirrorsRun circ simple) :
    Agree MirrorsRun (LexOp.getCkpt.step circ) (LexOp.getCkpt.step simple) := by
  obtain ⟨⟨before, buffered, simpleEq, tracks, hEq, small⟩, ckpts, known⟩ := mirrors
  have position : simple.lex.buf.pos = before.length := by rw [simpleEq]
  have total : simple.lex.buf.n = (before ++ buffered).length := by rw [simpleEq]; rfl
  refine .returned none ⟨⟨before, buffered, simpleEq, tracks, hEq, small⟩, ?_, ?_⟩
  · refine List.rel_append ckpts (.cons ?_ .nil)
    rw [position]
    exact tracks.tail_eq
  · intro pos mem
    rcases List.mem_append.mp mem with old | new
    · exact known pos old
    · rw [List.mem_singleton.mp new, position, total, List.length_append]
      exact Nat.le_add_right _ _

/-- Going back at most `CQ_N - 1` bytes finds them in the ring. -/
theorem MirrorsRun.restoreCkpt {circ : LexRun LexCirc} {simple : LexRun LexSimple} {index : Nat}
    (mirrors : MirrorsRun circ simple) (fits : (LexOp.restoreCkpt index).Fits simple) :
    Agree MirrorsRun ((LexOp.restoreCkpt index).step circ)
      ((LexOp.restoreCkpt index).step simple) := by
  obtain ⟨pos, taken, near⟩ := fits
  obtain ⟨⟨before, buffered, simpleEq, tracks, hEq, small⟩, ckpts, known⟩ := mirrors
  have total : simple.lex.buf.n = (before ++ buffered).length := by rw [simpleEq]; rfl
  obtain ⟨ckpt, takenCirc, same⟩ : ∃ ckpt, circ.ckpts[index]? = some ckpt ∧
      ckpt.tail = pos % cqN := by
    obtain ⟨lengths, entries⟩ := List.forall₂_iff_get.mp ckpts
    obtain ⟨bound, rfl⟩ := List.getElem?_eq_some_iff.mp taken
    rw [← lengths] at bound
    exact ⟨_, List.getElem?_eq_getElem bound, entries index bound (by rwa [← lengths])⟩
  have inside : pos ≤ (before ++ buffered).length := by
    rw [← total]
    exact known pos (List.mem_of_getElem? taken)
  have restored := tracks.setTail ckpt.tail_lt inside (by
    rw [← total]
    have : cqN = 1024 := rfl
    omega) same
  rw [LexOp.step, LexOp.step, Prog.bind_of_ok (Prog.get_apply _),
    Prog.bind_of_ok (Prog.get_apply _)]
  simp only [taken, takenCirc]
  have split : before ++ buffered =
      (before ++ buffered).take pos ++ (before ++ buffered).drop pos :=
    (List.take_append_drop pos _).symm
  have position : ((before ++ buffered).take pos).length = pos := List.length_take_of_le inside
  refine .returned none ⟨⟨(before ++ buffered).take pos, (before ++ buffered).drop pos, ?_, ?_, hEq,
    ?_⟩, ckpts, known⟩
  · rw [← split, position]
    change LexSimple.mk pos simple.lex.buf.stream = _
    rw [simpleEq]
  · rw [← split, position]
    exact restored
  · rw [← split]
    exact small

theorem MirrorsRun.step {op : LexOp} {circ : LexRun LexCirc} {simple : LexRun LexSimple}
    (mirrors : MirrorsRun circ simple) (fits : op.Fits simple) :
    Agree MirrorsRun (op.step circ) (op.step simple) := by
  cases op with
  | getc =>
      exact AgreeOn.bind (mirrors.onLex (mirrors.lex.getc fits))
        fun c _ _ relates => .returned (some c) relates
  | peek =>
      exact AgreeOn.bind (mirrors.onLex (mirrors.lex.peek fits))
        fun c _ _ relates => .returned (some c) relates
  | getCkpt => exact mirrors.getCkpt
  | restoreCkpt index => exact mirrors.restoreCkpt fits

/-! ## Stops -/

/-- Both lexers stop only to wait for the device. -/
theorem Mirrors.stops {circ : Lex LexCirc} {simple : Lex LexSimple}
    (mirrors : Mirrors circ simple) :
    (∀ stop after, lexGetc simple = .error stop after → stop = .blocked) ∧
      ∀ stop after, lexPeek simple = .error stop after → stop = .blocked := by
  obtain ⟨before, buffered, simpleEq, tracks, hEq, small⟩ := mirrors
  have here : At (before ++ (buffered ++ arriving simple.h)) (buffered ++ arriving simple.h)
      simple := ⟨before, buffered, simpleEq, rfl, rfl, by rwa [← List.append_assoc]⟩
  constructor
  · intro stop after stopped
    have agree := here.getc
    rw [stopped] at agree
    generalize buffered ++ arriving simple.h = unread at agree
    cases unread with
    | nil => cases agree; rfl
    | cons c rest => cases agree
  · intro stop after stopped
    have agree := here.peek
    rw [stopped] at agree
    generalize buffered ++ arriving simple.h = unread at agree
    cases unread with
    | nil => cases agree; rfl
    | cons c rest => cases agree

theorem LexRun.error_of_onLex {B : Type} [Lexer B] {α β : Type} {program : Prog (Lex B) α}
    {next : α → Prog (LexRun B) β} {run after : LexRun B} {stop : Stop}
    (returns : ∀ value middle, next value middle ≠ .error stop after)
    (stopped : (LexRun.onLex program >>= next) run = .error stop after) :
    ∃ lex, program run.lex = .error stop lex := by
  cases ran : program run.lex with
  | ok value lex =>
      have ranRun : LexRun.onLex program run = .ok value { run with lex := lex } :=
        Prog.onPart_of_ok ran
      rw [Prog.bind_of_ok ranRun] at stopped
      exact absurd stopped (returns _ _)
  | error first lex =>
      have ranRun : LexRun.onLex program run = .error first { run with lex := lex } :=
        Prog.onPart_of_error ran
      rw [Prog.bind_of_error ranRun] at stopped
      cases stopped
      exact ⟨lex, rfl⟩

theorem MirrorsRun.stops {op : LexOp} {circ : LexRun LexCirc} {simple after : LexRun LexSimple}
    {stop : Stop} (mirrors : MirrorsRun circ simple) (fits : op.Fits simple)
    (stopped : op.step simple = .error stop after) : stop = .blocked := by
  cases op with
  | getc =>
      obtain ⟨lex, lexStopped⟩ :=
        LexRun.error_of_onLex (fun _ _ same => by cases same) stopped
      exact mirrors.lex.stops.1 _ _ lexStopped
  | peek =>
      obtain ⟨lex, lexStopped⟩ :=
        LexRun.error_of_onLex (fun _ _ same => by cases same) stopped
      exact mirrors.lex.stops.2 _ _ lexStopped
  | getCkpt => cases stopped
  | restoreCkpt index =>
      obtain ⟨pos, taken, _⟩ := fits
      rw [LexOp.step, Prog.bind_of_ok (Prog.get_apply _)] at stopped
      simp only [taken] at stopped
      cases stopped

/-! ## Bursts that do not fit -/

/-- Reading more than fits into the ring panics. -/
theorem readBurst_overflow {before bytes : List UInt8} {fuel : Nat} {h : List Poll} {buf : LexCirc}
    (holds : LexCirc.Holds before buf bytes) (enough : h.length ≤ fuel)
    (data : ∃ chunk rest, h = .data chunk :: rest)
    (exceeds : cqN ≤ bytes.length + (burst h).1.length) :
    ∃ message after, readBurst fuel bytes.length ⟨buf, h⟩ = .error (.panic message) after := by
  induction fuel generalizing h bytes buf with
  | zero =>
      obtain ⟨chunk, rest, rfl⟩ := data
      cases enough
  | succ fuel ih =>
      obtain ⟨chunk, rest, rfl⟩ := data
      have lengths : (burst (.data chunk :: rest)).1.length =
          chunk.bytes.length + (burst rest).1.length := List.length_append
      rw [lengths] at exceeds
      have read : espRead ⟨buf, .data chunk :: rest⟩ = .ok chunk.bytes ⟨buf, rest⟩ := rfl
      have some : ¬ chunk.bytes.length = 0 := fun none =>
        chunk.nonempty (List.eq_nil_of_length_eq_zero none)
      have total : (before ++ bytes).length = before.length + bytes.length := List.length_append
      rw [readBurst, Prog.bind_of_ok read, if_neg some]
      change ∃ message after, (lexPushN chunk.bytes >>= _) _ = _
      rcases Nat.lt_trichotomy (bytes.length + chunk.bytes.length) cqN with below | exact | above
      · have storage := LexCirc.storage before
        obtain ⟨stored, pushed, kept⟩ := storage.pushN holds chunk.nonempty (by omega)
        have counted : LexBuf.lexNstream stored =
            .ok (bytes.length + chunk.bytes.length) stored := by
          rw [storage.nstream kept, List.length_append]
        have pushedLex : lexPushN chunk.bytes ⟨buf, rest⟩ = .ok () ⟨stored, rest⟩ :=
          onBuf_of_ok pushed rest
        have countedLex : lexNstream ⟨stored, rest⟩ =
            .ok (bytes.length + chunk.bytes.length) ⟨stored, rest⟩ := onBuf_of_ok counted rest
        have equal : (bytes.length + chunk.bytes.length ==
            bytes.length + chunk.bytes.length) = true := beq_self_eq_true _
        rw [Prog.bind_of_ok pushedLex, Prog.bind_of_ok countedLex,
          Prog.bind_of_ok (Prog.assertThat_of _ _ equal)]
        cases rest with
        | nil =>
            rw [burst, List.length_nil] at exceeds
            omega
        | cons poll rest =>
            cases poll with
            | quiet =>
                rw [burst, List.length_nil] at exceeds
                omega
            | data next =>
                have more : espHasDataTimeout ⟨stored, .data next :: rest⟩ =
                    .ok true ⟨stored, .data next :: rest⟩ := rfl
                rw [Prog.bind_of_ok more, if_pos rfl, ← List.length_append]
                exact ih kept (Nat.le_of_succ_le_succ enough) ⟨next, rest, rfl⟩
                  (by rw [List.length_append]; omega)
      · obtain ⟨stream, ran⟩ := Tracks.cqPushN_overflow cqN_ringSize chunk.bytes holds
          (by rw [total]; omega)
        refine ⟨"not handling this\n", ⟨{ buf with stream := stream }, rest⟩, ?_⟩
        apply Prog.bind_of_error
        apply onBuf_of_error
        exact Prog.bind_of_error (LexCirc.onStream_of_error ran)
      · have ran := Tracks.cqPushN_refused cqN_ringSize chunk.bytes holds
          (by rw [total]; omega)
        refine ⟨"push failed!\n", ⟨buf, rest⟩, ?_⟩
        apply Prog.bind_of_error
        apply onBuf_of_error
        change LexCirc.pushN chunk.bytes buf = _
        rw [LexCirc.pushN, Prog.bind_of_ok (LexCirc.onStream_of_ok ran)]
        rfl

/-- The lexer in the ring panics when the next burst does not fit. -/
theorem Mirrors.refill_overflow {circ : Lex LexCirc} {simple : Lex LexSimple}
    (mirrors : Mirrors circ simple) (exceeds : ¬ BurstFits simple) :
    ∃ message after, lexRefill circ = .error (.panic message) after := by
  obtain ⟨circBuf, h⟩ := circ
  obtain ⟨before, buffered, simpleEq, tracks, hEq, small⟩ := mirrors
  rw [BurstFits, Classical.not_imp, not_forall] at exceeds
  obtain ⟨consumed, rest, exceeds⟩ := exceeds
  rw [Classical.not_imp, ← hEq] at exceeds
  obtain ⟨data, exceeds⟩ := exceeds
  have none : buffered = [] := by
    rw [simpleEq] at consumed
    change before.length = (before ++ buffered).length at consumed
    rw [List.length_append] at consumed
    exact List.eq_nil_of_length_eq_zero (by omega)
  subst none
  have storage := LexCirc.storage before
  have kept : LexCirc.Holds before circBuf [] := tracks
  have empty : lexEmpty ⟨circBuf, h⟩ = .ok true ⟨circBuf, h⟩ :=
    onBuf_of_ok (storage.lexEmpty kept) h
  have count : lexNstream ⟨circBuf, h⟩ = .ok 0 ⟨circBuf, h⟩ :=
    onBuf_of_ok (storage.nstream kept) h
  have zero : ((0 : Nat) == 0) = true := rfl
  have waited : waitForData ⟨circBuf, h⟩ = .ok () ⟨circBuf, rest⟩ := by
    rw [waitForData, data]
  obtain ⟨message, after, ran⟩ := readBurst_overflow kept (Nat.le_refl rest.length)
    (data_of_skipQuiet data) (by rw [List.length_nil]; have : cqN = 1024 := rfl; omega)
  refine ⟨message, after, ?_⟩
  rw [lexRefill, Prog.bind_of_ok empty, if_pos rfl]
  apply Prog.bind_of_error
  rw [lexReadin, Prog.bind_of_ok empty, Prog.bind_of_ok (Prog.assertThat_true _ _),
    Prog.bind_of_ok count, Prog.bind_of_ok (Prog.assertThat_of _ _ zero), Prog.bind_of_ok waited,
    Prog.bind_of_ok (Prog.get_apply _)]
  exact ran

/-! ## The two lexers are interchangeable within the ring -/

def LexRun.start {B : Type} [LexBuf B] (buf : B) (h : List Poll) : LexRun B := ⟨⟨buf, h⟩, []⟩

theorem mirrorsRun_start {h : List Poll} (small : (arriving h).length < lexMaxbuf) :
    MirrorsRun (LexRun.start LexCirc.init h) (LexRun.start LexSimple.init h) where
  lex := ⟨[], [], rfl, Tracks.zeroed _ _, rfl, small⟩
  ckpts := .nil
  known := fun _ mem => absurd mem List.not_mem_nil

/-- As long as bursts fit into the ring and checkpoints are restored before
their bytes are overwritten, every run gives the same results with both lexers
and stops only to wait for the device.  The first burst that does not fit makes
the lexer in the ring panic. -/
theorem lex_circ_agrees_with_lex_simple {h : List Poll} {ops : List LexOp}
    (small : (arriving h).length < lexMaxbuf)
    (fits : Along LexOp.step LexOp.Fits ops (LexRun.start LexSimple.init h)) :
    Agree MirrorsRun (ops.mapM LexOp.step (LexRun.start LexCirc.init h))
        (ops.mapM LexOp.step (LexRun.start LexSimple.init h)) ∧
      (∀ stop after, ops.mapM LexOp.step (LexRun.start LexSimple.init h) = .error stop after →
        stop = .blocked) ∧
      ∀ replies simple, ops.mapM LexOp.step (LexRun.start LexSimple.init h) = .ok replies simple →
        ¬ BurstFits simple.lex → ∀ op, op = LexOp.getc ∨ op = LexOp.peek →
          ∃ circ message after,
            ops.mapM LexOp.step (LexRun.start LexCirc.init h) = .ok replies circ ∧
              op.step circ = .error (.panic message) after := by
  have agree : Agree MirrorsRun (ops.mapM LexOp.step (LexRun.start LexCirc.init h))
      (ops.mapM LexOp.step (LexRun.start LexSimple.init h)) := by
    refine mapM_agree ?_ ops _ _ (mirrorsRun_start small) fits
    exact fun op _ _ mirrors met => mirrors.step met
  refine ⟨agree, ?_, ?_⟩
  · refine mapM_stops (fun simple => ∃ circ, MirrorsRun circ simple) ?_ ?_ ops _
      ⟨_, mirrorsRun_start small⟩ fits
    · rintro op simple reply after ⟨circ, mirrors⟩ met ran
      have step := mirrors.step met
      rw [ran] at step
      obtain ⟨circAfter, _, mirrorsAfter⟩ := step.left_of_ok
      exact ⟨circAfter, mirrorsAfter⟩
    · rintro op simple stop after ⟨circ, mirrors⟩ met stopped
      exact mirrors.stops met stopped
  · intro replies simple ran exceeds op reads
    rw [ran] at agree
    obtain ⟨circ, circRan, mirrors⟩ := agree.left_of_ok
    rcases reads with rfl | rfl
    · obtain ⟨message, lex, stopped⟩ := mirrors.lex.counted.refill_overflow exceeds
      refine ⟨circ, message, { circ with lex := lex }, circRan, ?_⟩
      apply Prog.bind_of_error
      exact Prog.onPart_of_error (Prog.bind_of_error stopped)
    · obtain ⟨message, lex, stopped⟩ := mirrors.lex.refill_overflow exceeds
      refine ⟨circ, message, { circ with lex := lex }, circRan, ?_⟩
      apply Prog.bind_of_error
      exact Prog.onPart_of_error (Prog.bind_of_error stopped)

/-! ## Beyond the ring -/

/-- One byte many times. -/
def Chunk.replicate (count : Nat) (c : UInt8) (some : 0 < count) (fits : count ≤ 1024) : Chunk where
  bytes := List.replicate count c
  nonempty := by
    intro none
    rw [List.replicate_eq_nil_iff] at none
    omega
  fits := by rwa [List.length_replicate]

/-- Two bytes in two bursts. -/
def twoBursts : List Poll :=
  [.data (Chunk.replicate 1 97 (by decide) (by decide)), .quiet,
    .data (Chunk.replicate 1 98 (by decide) (by decide))]

/-- Both bytes are read, and read again after going back over them. -/
def readTwice : List LexOp := [.getCkpt, .getc, .getc, .restoreCkpt 0, .getc, .getc]

theorem lex_circ_agrees_on_twoBursts :
    Agree MirrorsRun (readTwice.mapM LexOp.step (LexRun.start LexCirc.init twoBursts))
        (readTwice.mapM LexOp.step (LexRun.start LexSimple.init twoBursts)) ∧
      returned? (readTwice.mapM LexOp.step (LexRun.start LexSimple.init twoBursts)) =
        some [none, some 97, some 98, none, some 97, some 98] := by
  have oneByte : ∀ rest, skipQuiet? twoBursts = some rest → (burst rest).1.length ≤ cqN - 1 := by
    rintro rest ⟨⟩
    decide
  have fits : Along LexOp.step LexOp.Fits readTwice (LexRun.start LexSimple.init twoBursts) := by
    refine .cons trivial rfl (.cons (fun _ => oneByte) rfl (.cons ?_ rfl (.cons ?_ rfl
      (.cons ?_ rfl (.cons ?_ rfl trivial)))))
    · rintro _ rest ⟨⟩
      decide
    · exact ⟨0, rfl, by decide⟩
    · exact fun consumed => absurd consumed (by decide)
    · exact fun consumed => absurd consumed (by decide)
  exact ⟨(lex_circ_agrees_with_lex_simple (by decide) fits).1, by decide +kernel⟩

/-- Three bursts, the second of which fills the ring. -/
def fullRing : List Poll :=
  [.data (Chunk.replicate 1 97 (by decide) (by decide)), .quiet,
    .data (Chunk.replicate 1023 98 (by decide) (by decide)), .quiet,
    .data (Chunk.replicate 1 99 (by decide) (by decide))]

/-- Going back over 1024 bytes, all still kept by the other lexer. -/
def readAgain : List LexOp := [.getCkpt, .getc, .getc, .restoreCkpt 0, .getc]

/-- What one call of `esp_read` may return. -/
def fullChunk : List Poll := [.data (Chunk.replicate 1024 97 (by decide) (by decide))]

/-- Going back over overwritten bytes gives a byte that was never read, and
one full piece of data panics; the other lexer returns the right bytes. -/
theorem lex_circ_differs_from_lex_simple :
    (arriving fullRing).length < lexMaxbuf ∧ (arriving fullChunk).length < lexMaxbuf ∧
      returned? (readAgain.mapM LexOp.step (LexRun.start LexSimple.init fullRing)) =
        some [none, some 97, some 98, none, some 97] ∧
      returned? (readAgain.mapM LexOp.step (LexRun.start LexCirc.init fullRing)) =
        some [none, some 97, some 98, none, some 99] ∧
      returned? ([LexOp.getc].mapM LexOp.step (LexRun.start LexSimple.init fullChunk)) =
        some [some 97] ∧
      stopped? ([LexOp.getc].mapM LexOp.step (LexRun.start LexCirc.init fullChunk)) =
        some (.panic "not handling this\n") := by
  decide +kernel

end Cs140e.Esp
