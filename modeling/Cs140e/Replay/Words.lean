import Cs140e.Library.Buffer
import Cs140e.Library.LittleEndian
import Cs140e.Replay.Entries
import Cs140e.Replay.Trace

/-!
# Words and buffers in any log

What the readers of `parse_trace` do with the entries that are unread.  A word
that is begun and not finished is the place where `read_ent_op` runs dry.
-/

namespace Cs140e.Replay.PrettyPrint

open Cs140e.Library
open Cs140e.Library.LittleEndian

/-- The entries of bytes that one side sent. -/
def sent (sender : UInt8) (bytes : List UInt8) : List LogEnt := bytes.map (LogEnt.mk sender)

theorem sent_append (sender : UInt8) (first second : List UInt8) :
    sent sender (first ++ second) = sent sender first ++ sent sender second :=
  List.map_append

@[simp]
theorem length_sent (sender : UInt8) (bytes : List UInt8) :
    (sent sender bytes).length = bytes.length :=
  List.length_map _

theorem sent_injective {sender : UInt8} {first second : List UInt8}
    (same : sent sender first = sent sender second) : first = second :=
  List.map_injective_iff.mpr (fun _ _ equal => by injection equal) same

/-- The lines of bytes logged by one sender. -/
def lines (sender : UInt8) (bytes : List UInt8) : List UInt8 :=
  logText (bytes.map (LogEnt.mk sender))

/-- One to three entries of one side, which do not fill a word. -/
def Cut (sender : UInt8) (ents : List LogEnt) : Prop :=
  ∃ bytes, 0 < bytes.length ∧ bytes.length < 4 ∧ ents = sent sender bytes

variable {content : List UInt8} {complete : Bool} {l : LogT} {ents : List LogEnt}

/-! ## Words -/

theorem readEntOp_reading (opExp : UInt8) (here : Unread content complete l ents) :
    Reading (Unread content complete) (fun v left => ents = ⟨opExp, v⟩ :: left)
      (ents = [] ∧ complete = true) (readEntOp opExp l) := by
  cases ents with
  | nil =>
      have none : ∀ v left, ¬ [] = LogEnt.mk opExp v :: left := fun v left same => by cases same
      cases complete with
      | true =>
          rw [readEntOp, Prog.bind_of_ok here.logReadEnt_end]
          exact .starved ⟨rfl, rfl⟩ none
      | false =>
          obtain ⟨message, after, stopped⟩ := here.logReadEnt_broken
          rw [readEntOp, Prog.bind_of_error stopped]
          exact .reported none fun both => Bool.false_ne_true both.2
  | cons ent ents =>
      obtain ⟨after, ran, there⟩ := here.logReadEnt
      rw [readEntOp, Prog.bind_of_ok ran]
      refine (Reading.checkThen _ _ fun _ => Reading.pure there ent.v).of_iff (fun v left => ?_) ?_
      · constructor
        · rintro ⟨same, rfl, rfl⟩
          rw [not_not.mp same]
        · intro same
          cases same
          exact ⟨not_not_intro rfl, rfl, rfl⟩
      · exact ⟨fun both => both.2.elim, fun both => absurd both.1 (List.cons_ne_nil _ _)⟩

/-- Four entries are a word. -/
theorem sent_bytesOf_wordOf (sender b0 b1 b2 b3 : UInt8) (left : List LogEnt) :
    sent sender (bytesOf (wordOf [b0, b1, b2, b3])) ++ left =
      ⟨sender, b0⟩ :: ⟨sender, b1⟩ :: ⟨sender, b2⟩ :: ⟨sender, b3⟩ :: left := by
  rw [bytesOf_wordOf]
  rfl

theorem logReadEnt32_reading (op : UInt8) (here : Unread content complete l ents)
    (more : ¬ (ents = [] ∧ complete = true)) :
    Reading (Unread content complete)
      (fun result left => ∃ word, result = some word ∧ ents = sent op (bytesOf word) ++ left)
      (complete = true ∧ Cut op ents) (logReadEnt32 op l) := by
  have parts := (readEntOp_reading op here).bind fun v0 _ _ _ here =>
    (readEntOp_reading op here).bind fun v1 _ _ _ here =>
    (readEntOp_reading op here).bind fun v2 _ _ _ here =>
    (readEntOp_reading op here).bind fun v3 _ _ _ here =>
    Reading.pure here (some (v3.toUInt32 <<< 24 ||| v2.toUInt32 <<< 16 ||| v1.toUInt32 <<< 8 |||
      v0.toUInt32))
  rw [logReadEnt32, Prog.bind_of_ok (here.logIsEol_more more), if_neg Bool.false_ne_true]
  refine parts.of_iff (fun result left => ?_) ?_
  · constructor
    · rintro ⟨b0, _, rfl, b1, _, rfl, b2, _, rfl, b3, _, rfl, rfl, rfl⟩
      refine ⟨wordOf [b0, b1, b2, b3], ?_, (sent_bytesOf_wordOf op b0 b1 b2 b3 left).symm⟩
      rw [or_shift_reverse]
    · rintro ⟨word, rfl, rfl⟩
      refine ⟨_, _, rfl, _, _, rfl, _, _, rfl, _, _, rfl, ?_, rfl⟩
      rw [or_shift_reverse]
      change _ = some (wordOf (bytesOf word))
      rw [wordOf_bytesOf]
  · constructor
    · rintro (none | ⟨b0, _, rfl, ⟨rfl, whole⟩ | ⟨b1, _, rfl, ⟨rfl, whole⟩ | ⟨b2, _, rfl,
        ⟨rfl, whole⟩ | ⟨b3, _, rfl, never⟩⟩⟩⟩)
      · exact absurd none more
      · exact ⟨whole, [b0], Nat.succ_pos _, by simp, rfl⟩
      · exact ⟨whole, [b0, b1], Nat.succ_pos _, by simp, rfl⟩
      · exact ⟨whole, [b0, b1, b2], Nat.succ_pos _, by simp, rfl⟩
      · exact never.elim
    · rintro ⟨whole, bytes, begun, few, rfl⟩
      rcases bytes with _ | ⟨b0, _ | ⟨b1, _ | ⟨b2, _ | ⟨b3, bytes⟩⟩⟩⟩
      · exact absurd begun (Nat.lt_irrefl 0)
      · exact .inr ⟨b0, _, rfl, .inl ⟨rfl, whole⟩⟩
      · exact .inr ⟨b0, _, rfl, .inr ⟨b1, _, rfl, .inl ⟨rfl, whole⟩⟩⟩
      · exact .inr ⟨b0, _, rfl, .inr ⟨b1, _, rfl, .inr ⟨b2, _, rfl, .inl ⟨rfl, whole⟩⟩⟩⟩
      · simp only [List.length_cons] at few
        omega

theorem not_cut_nil (sender : UInt8) : ¬ Cut sender [] := by
  rintro ⟨bytes, begun, _, none⟩
  have lengths := congrArg List.length none
  rw [length_sent] at lengths
  exact absurd lengths (Nat.ne_of_lt begun)

theorem sent_word_ne_nil (sender : UInt8) (word : UInt32) (left : List LogEnt) :
    sent sender (bytesOf word) ++ left ≠ [] := List.cons_ne_nil _ _

theorem logEnt32Exp_reading (op : UInt8) (here : Unread content complete l ents) :
    Reading (Unread content complete) (fun word left => ents = sent op (bytesOf word) ++ left)
      (complete = true ∧ Cut op ents) (logEnt32Exp op l) := by
  by_cases none : ents = [] ∧ complete = true
  · obtain ⟨rfl, rfl⟩ := none
    have ended : logReadEnt32 op l = .ok none l := by
      rw [logReadEnt32, Prog.bind_of_ok here.logIsEol_end, if_pos rfl]
      rfl
    rw [logEnt32Exp, Prog.bind_of_ok ended]
    exact .reported (fun word left => (sent_word_ne_nil op word left).symm)
      fun both => not_cut_nil op both.2
  · rw [logEnt32Exp]
    refine .of_iff (.bind_some (logReadEnt32_reading op here none) fun word _ _ _ there =>
      Reading.pure there word) (fun word left => ?_) (by simp)
    constructor
    · rintro ⟨_, _, split, rfl, rfl⟩
      exact split
    · exact fun split => ⟨word, left, split, rfl, rfl⟩

/-- Looking at a word leaves it unread. -/
theorem logPeek32_reading (op : UInt8) (here : Unread content complete l ents) :
    Reading (Unread content complete)
      (fun word left => left = ents ∧ ∃ rest, ents = sent op (bytesOf word) ++ rest)
      (complete = true ∧ Cut op ents) (logPeek32 op l) := by
  rw [logPeek32, Prog.bind_of_ok (Prog.get_apply l)]
  refine .of_iff (.bind (logEnt32Exp_reading op here) fun word _ _ _ _ =>
    .bind (.set here) fun _ _ _ _ there => .pure there word) (fun word left => ?_) (by simp)
  constructor
  · rintro ⟨_, rest, split, _, _, rfl, rfl, rfl⟩
    exact ⟨rfl, rest, split⟩
  · rintro ⟨rfl, rest, split⟩
    exact ⟨word, rest, split, ⟨⟩, left, rfl, rfl, rfl⟩

/-- The first entry tells which side sends the word. -/
theorem logRead32_reading (here : Unread content complete l ents)
    (more : ¬ (ents = [] ∧ complete = true)) :
    Reading (Unread content complete)
      (fun result left => ∃ word, result = some word ∧
        ∃ op, ents = sent op (bytesOf word) ++ left)
      (complete = true ∧ ∃ op, Cut op ents) (logRead32 l) := by
  obtain ⟨op, peeked, first⟩ := here.logPeek more
  rw [logRead32, Prog.bind_of_ok (here.logIsEol_more more), if_neg Bool.false_ne_true,
    Prog.bind_of_ok peeked]
  refine (logReadEnt32_reading op here more).of_iff (fun result left => ?_) ?_
  · constructor
    · rintro ⟨word, rfl, split⟩
      exact ⟨word, rfl, op, split⟩
    · rintro ⟨word, rfl, other, rfl⟩
      cases first ⟨other, UInt8.ofNat word.toNat⟩ rfl
      exact ⟨word, rfl, rfl⟩
  · constructor
    · exact fun both => ⟨both.1, op, both.2⟩
    · rintro ⟨whole, other, bytes, begun, few, rfl⟩
      obtain ⟨b, bytes, rfl⟩ := List.exists_cons_of_length_pos begun
      cases first ⟨other, b⟩ rfl
      exact ⟨whole, b :: bytes, begun, few, rfl⟩

theorem logRead32_end (here : Unread content true l []) : logRead32 l = .ok none l := by
  rw [logRead32, Prog.bind_of_ok here.logIsEol_end, if_pos rfl]
  rfl

/-! ## Buffers -/

theorem readNLoop_nil (op : UInt8) (left i : Nat) (p : List UInt8)
    (here : Unread content complete l []) :
    ∃ message after, readNLoop op (left + 1) i p l = .error (.panic message) after := by
  cases complete with
  | true =>
      rw [readNLoop, Prog.bind_of_ok here.logReadEnt_end]
      exact ⟨_, _, rfl⟩
  | false =>
      obtain ⟨message, after, stopped⟩ := here.logReadEnt_broken
      rw [readNLoop, Prog.bind_of_error stopped]
      exact ⟨message, after, rfl⟩

/-- The loop fills the buffer from the given index on. -/
theorem readNLoop_reading (op : UInt8) (count : Nat) (first : List UInt8)
    (here : Unread content complete l ents) :
    Reading (Unread content complete)
      (fun p left => ∃ bytes, bytes.length = count ∧ p = first ++ bytes ++ [0] ∧
        ents = sent op bytes ++ left) False
      (readNLoop op count first.length (first ++ List.replicate (count + 1) 0) l) := by
  induction count generalizing first l ents with
  | zero =>
      refine (Reading.pure here (first ++ [0])).of_iff (fun p left => ?_) (by simp)
      constructor
      · rintro ⟨rfl, rfl⟩
        exact ⟨[], rfl, by rw [List.append_nil], rfl⟩
      · rintro ⟨bytes, none, rfl, rfl⟩
        cases List.length_eq_zero_iff.mp none
        exact ⟨by rw [List.append_nil], rfl⟩
  | succ count ih =>
      cases ents with
      | nil =>
          obtain ⟨message, after, stopped⟩ := readNLoop_nil op count first.length _ here
          rw [stopped]
          refine .reported ?_ not_false
          rintro p left ⟨bytes, size, _, none⟩
          obtain ⟨b, bytes, rfl⟩ := List.exists_cons_of_length_eq_add_one size
          cases none
      | cons ent ents =>
          obtain ⟨after, ran, there⟩ := here.logReadEnt
          have inside : ¬ (first ++ List.replicate (count + 1 + 1) (0 : UInt8)).length ≤
              first.length := by
            rw [List.length_append, List.length_replicate]
            omega
          have stored : (first ++ List.replicate (count + 1 + 1) (0 : UInt8)).set first.length
              ent.v = first ++ [ent.v] ++ List.replicate (count + 1) 0 := by
            rw [List.replicate_succ, set_done]
          have loop := ih (first ++ [ent.v]) there
          rw [List.length_append, List.length_singleton] at loop
          rw [readNLoop, Prog.bind_of_ok ran]
          dsimp only
          rw [if_neg inside, stored]
          refine (Reading.checkThen _ _ fun _ => loop).of_iff (fun p left => ?_) (by simp)
          constructor
          · rintro ⟨same, bytes, rfl, rfl, rfl⟩
            refine ⟨ent.v :: bytes, rfl, by simp, ?_⟩
            rw [not_not.mp same]
            rfl
          · rintro ⟨bytes, size, rfl, split⟩
            obtain ⟨b, bytes, rfl⟩ := List.exists_cons_of_length_eq_add_one size
            cases split
            exact ⟨not_not_intro rfl, bytes, Nat.succ.inj size, by simp, rfl⟩

/-- The buffer of `n + 1` bytes; if there are none the first byte is stored behind it. -/
theorem logReadN_reading (op : UInt8) (n : UInt32) (here : Unread content complete l ents) :
    Reading (Unread content complete)
      (fun p left => ∃ bytes, bytes.length = n.toNat ∧ p = bytes ++ [0] ∧
        ents = sent op bytes ++ left)
      (n.toNat + 1 = 2 ^ 32 ∧ ents ≠ []) (logReadN op n l) := by
  have bound := n.toNat_lt
  have short := here.length_le
  have size := l.nbytes.toNat_lt
  have table : (n + 1).toNat = (n.toNat + 1) % 2 ^ 32 := by
    rw [UInt32.toNat_add]
    rfl
  by_cases room : n.toNat + 1 = 2 ^ 32
  · -- so many entries are in no log
    have tooMany : ∀ (p : List UInt8) (left : List LogEnt),
        ¬ ∃ bytes, bytes.length = n.toNat ∧ p = bytes ++ [0] ∧ ents = sent op bytes ++ left := by
      rintro p left ⟨bytes, count, _, rfl⟩
      rw [List.length_append, length_sent] at short
      omega
    have some : n.toNat = n.toNat - 1 + 1 := by omega
    rw [logReadN, table, room, Nat.mod_self, some]
    cases ents with
    | nil =>
        obtain ⟨message, after, stopped⟩ := readNLoop_nil op (n.toNat - 1) 0 [] here
        rw [List.replicate_zero, stopped]
        exact .reported (some ▸ tooMany) fun both => both.2 rfl
    | cons ent ents =>
        obtain ⟨after, ran, there⟩ := here.logReadEnt
        rw [readNLoop, Prog.bind_of_ok ran]
        exact .starved ⟨rfl, List.cons_ne_nil _ _⟩ (some ▸ tooMany)
  · rw [logReadN, table, Nat.mod_eq_of_lt (by omega)]
    refine (readNLoop_reading op n.toNat [] here).of_iff (fun p left => by simp) ?_
    exact ⟨False.elim, fun both => room both.1⟩

theorem countLoop_reading (op : UInt8) {fuel : Nat} (enough : ents.length < fuel) (n : Nat)
    (here : Unread content complete l ents) :
    Reading (Unread content complete)
      (fun total left => complete = true ∧ left = [] ∧
        ∃ bytes, ents = sent op bytes ∧ total = n + bytes.length) False
      (countLoop op fuel n l) := by
  induction ents generalizing fuel n l with
  | nil =>
      obtain ⟨less, rfl⟩ : ∃ less, fuel = less + 1 := ⟨fuel - 1, by omega⟩
      cases complete with
      | true =>
          rw [countLoop, Prog.bind_of_ok here.logReadEnt_end]
          refine (Reading.pure here n).of_iff (fun total left => ?_) (by simp)
          constructor
          · rintro ⟨rfl, rfl⟩
            exact ⟨rfl, rfl, [], rfl, rfl⟩
          · rintro ⟨_, rfl, bytes, none, rfl⟩
            cases List.map_eq_nil_iff.mp none.symm
            exact ⟨rfl, rfl⟩
      | false =>
          obtain ⟨message, after, stopped⟩ := here.logReadEnt_broken
          rw [countLoop, Prog.bind_of_error stopped]
          exact .reported (fun _ _ both => Bool.false_ne_true both.1) not_false
  | cons ent ents ih =>
      obtain ⟨less, rfl⟩ : ∃ less, fuel = less + 1 := ⟨fuel - 1, by omega⟩
      obtain ⟨after, ran, there⟩ := here.logReadEnt
      have loop := ih (Nat.lt_of_succ_lt_succ enough) (n + 1) there
      rw [countLoop, Prog.bind_of_ok ran]
      refine (Reading.checkThen _ _ fun _ => loop).of_iff (fun total left => ?_) (by simp)
      constructor
      · rintro ⟨same, whole, rfl, bytes, rfl, rfl⟩
        refine ⟨whole, rfl, ent.v :: bytes, ?_, ?_⟩
        · rw [not_not.mp same]
          rfl
        · rw [List.length_cons, Nat.add_assoc, Nat.add_comm 1]
      · rintro ⟨whole, rfl, bytes, split, rfl⟩
        cases bytes with
        | nil => cases split
        | cons b bytes =>
            cases split
            refine ⟨not_not_intro rfl, whole, rfl, bytes, rfl, ?_⟩
            rw [List.length_cons, Nat.add_assoc, Nat.add_comm 1]

/-- The rest of the log is read when all of it is lines of the one side. -/
theorem logReadall_reading (op : UInt8) (here : Unread content complete l ents) :
    Reading (Unread content complete)
      (fun result left => complete = true ∧ left = [] ∧ ∃ output, ents = sent op output ∧
        result = (output ++ [0], UInt32.ofNat output.length)) False
      (logReadall op l) := by
  have short := here.length_le
  have size := l.nbytes.toNat_lt
  have counting := countLoop_reading op (by omega : ents.length < l.nbytes.toNat + 1) 0 here
  rw [logReadall, Prog.bind_of_ok (Prog.get_apply l)]
  by_cases readable : complete = true ∧ ∃ output, ents = sent op output
  · obtain ⟨rfl, output, rfl⟩ := readable
    rw [length_sent] at short
    obtain ⟨counted, count, ended⟩ := counting.takes ⟨rfl, rfl, output, rfl, rfl⟩
    have number : output.length = (UInt32.ofNat (0 + output.length)).toNat := by
      rw [Nat.zero_add, UInt32.toNat_ofNat', Nat.mod_eq_of_lt (by omega)]
    obtain ⟨after, ran, there⟩ := (logReadN_reading op _ here).takes
      ⟨output, number, rfl, (List.append_nil _).symm⟩
    rw [Prog.bind_of_ok count, Prog.bind_of_ok ended.logIsEol_end]
    dsimp only
    rw [Bool.not_true, if_neg Bool.false_ne_true, Prog.bind_of_ok (Prog.set_apply counted l),
      Prog.bind_of_ok ran, Nat.zero_add]
    refine .returned there ⟨rfl, rfl, output, rfl, rfl⟩ ?_ not_false
    rintro _ _ ⟨_, rfl, other, same, rfl⟩
    rw [sent_injective same]
    exact ⟨rfl, rfl⟩
  · obtain ⟨message, after, stopped⟩ := counting.reports
      (fun _ _ ⟨whole, _, bytes, split, _⟩ => readable ⟨whole, bytes, split⟩) not_false
    rw [Prog.bind_of_error stopped]
    exact .reported (fun _ _ ⟨whole, _, output, split, _⟩ => readable ⟨whole, output, split⟩)
      not_false

end Cs140e.Replay.PrettyPrint
