import Cs140e.Bootloader.Codec

/-!
# Draining the tty at the start of a boot

Step 0 of `simple_boot` reads the tty in words until it sees a `GET_PROG_INFO`.
It never changes its alignment, so it finds the words of the pi only behind
garbage that is itself a number of words.
-/

namespace Cs140e.Bootloader

open Cs140e.Library
open Cs140e.Library.LittleEndian

/-! ## The words of the pi -/

def getProgInfos (count : Nat) : List UInt8 :=
  (List.replicate count (bytesOf getProgInfo)).flatten

@[simp]
theorem getProgInfos_zero : getProgInfos 0 = [] := rfl

theorem getProgInfos_succ (count : Nat) :
    getProgInfos (count + 1) = bytesOf getProgInfo ++ getProgInfos count := by
  rw [getProgInfos, List.replicate_succ, List.flatten_cons]
  rfl

/-- While no data comes, `wait_for_data` keeps sending the word. -/
theorem waitForData_apply (count : Nat) (sent : Uart) :
    waitForData (List.replicate count false) sent =
      .error .blocked (sent ++ getProgInfos count) := by
  induction count generalizing sent with
  | zero =>
      rw [getProgInfos_zero, List.append_nil]
      rfl
  | succ count ih =>
      rw [List.replicate_succ, waitForData, Prog.bind_of_ok (putUint_apply _ _),
        if_neg Bool.false_ne_true, ih, getProgInfos_succ, List.append_assoc]

/-! ## Garbage -/

/-- The word occurs at no byte of the garbage, and not where the garbage meets
the first word of the pi. -/
def FreeOf (op : UInt32) (garbage : List UInt8) : Prop :=
  ∀ offset < garbage.length, ¬ bytesOf op <+: garbage.drop offset ++ bytesOf getProgInfo

instance (op : UInt32) (garbage : List UInt8) : Decidable (FreeOf op garbage) :=
  inferInstanceAs (Decidable (∀ offset < garbage.length, _))

theorem FreeOf.drop {op : UInt32} {garbage : List UInt8} (free : FreeOf op garbage) (count : Nat) :
    FreeOf op (garbage.drop count) := by
  intro offset inside
  rw [List.length_drop] at inside
  rw [List.drop_drop]
  exact free (count + offset) (by omega)

/-- The word that begins in non-empty garbage is another one. -/
theorem FreeOf.ne {op word : UInt32} {garbage rest : List UInt8} (free : FreeOf op garbage)
    (nonempty : 0 < garbage.length)
    (split : garbage ++ bytesOf getProgInfo = bytesOf word ++ rest) :
    word ≠ op := by
  rintro rfl
  refine free 0 nonempty ⟨rest, ?_⟩
  rw [List.drop_zero, split]

/-- What is left of a word of the pi when it was begun too early. -/
theorem freeOf_rest : ∀ count < 4, 0 < count →
    FreeOf getProgInfo ((bytesOf getProgInfo).drop (4 - count)) ∧
      FreeOf printString ((bytesOf getProgInfo).drop (4 - count)) := by
  decide

/-! ## The loop -/

theorem drain_loops (fd : UnixEnd) : Loops drainRound fd (drain fd) := by
  refine Loops.of_repeatUntil (fun fd => fd.tty.length) ?_ _ fd (Nat.lt_succ_self _)
  intro fd after returned
  obtain ⟨op, middle, read, rest⟩ := Prog.ok_of_bind_ok returned
  have shorter := getOp_lt read
  by_cases found : op = getProgInfo
  · rw [if_pos found] at rest
    cases rest
  · rw [if_neg found] at rest
    cases rest
    exact shorter

theorem drainRound_found (rest out : List UInt8) :
    drainRound ⟨bytesOf getProgInfo ++ rest, out⟩ = .ok (some ()) ⟨rest, out⟩ := by
  rw [drainRound, Prog.bind_of_ok (getOp_word (by decide) rest out), if_pos rfl]
  rfl

theorem drainRound_discards {word : UInt32} (notInfo : word ≠ getProgInfo)
    (notPrint : word ≠ printString) (rest out : List UInt8) :
    ∃ out', drainRound ⟨bytesOf word ++ rest, out⟩ = .ok none ⟨rest, out'⟩ := by
  rw [drainRound, Prog.bind_of_ok (getOp_word notPrint rest out), if_neg notInfo]
  exact ⟨_, rfl⟩

/-- Garbage is discarded up to the bytes that do not fill a word. -/
theorem loops_garbage {garbage : List UInt8} (noInfo : FreeOf getProgInfo garbage)
    (noPrint : FreeOf printString garbage) (stream out : List UInt8) :
    ∃ out', ∀ outcome,
      Loops drainRound
        ⟨garbage.drop (garbage.length / 4 * 4) ++ stream, out'⟩ outcome →
      Loops drainRound ⟨garbage ++ stream, out⟩ outcome := by
  generalize wordsEq : garbage.length / 4 = words
  induction words generalizing garbage out with
  | zero => exact ⟨out, fun _ loops => by rwa [Nat.zero_mul, List.drop_zero] at loops⟩
  | succ words ih =>
      obtain ⟨word, split⟩ := exists_word garbage (by omega)
      have joined : garbage ++ bytesOf getProgInfo =
          bytesOf word ++ (garbage.drop 4 ++ bytesOf getProgInfo) := by
        rw [← List.append_assoc, ← split]
      obtain ⟨middle, discarded⟩ := drainRound_discards (noInfo.ne (by omega) joined)
        (noPrint.ne (by omega) joined) (garbage.drop 4 ++ stream) out
      obtain ⟨out', rest⟩ := ih (noInfo.drop 4) (noPrint.drop 4) middle (by
        rw [List.length_drop]
        omega)
      refine ⟨out', fun outcome loops => ?_⟩
      rw [split, List.append_assoc]
      refine .goesOn discarded (rest outcome ?_)
      rw [List.drop_drop]
      rwa [show 4 + words * 4 = (words + 1) * 4 by omega]

/-- Behind one to three bytes every word of the pi is cut in two, until the
read times out. -/
theorem loops_misaligned (count : Nat) {short : List UInt8} (some : 0 < short.length)
    (few : short.length < 4) (noInfo : FreeOf getProgInfo short)
    (noPrint : FreeOf printString short) (out : List UInt8) :
    ∃ out', Loops drainRound ⟨short ++ getProgInfos count, out⟩
      (.error timedOut ⟨[], out'⟩) := by
  induction count generalizing short out with
  | zero =>
      refine ⟨out, .stops ?_⟩
      rw [getProgInfos_zero, List.append_nil, drainRound,
        Prog.bind_of_error (getOp_short few out)]
  | succ count ih =>
      have lengths : (short ++ bytesOf getProgInfo).length = short.length + 4 := by
        rw [List.length_append, length_bytesOf]
      obtain ⟨word, split⟩ := exists_word (short ++ bytesOf getProgInfo) (by omega)
      have left : (short ++ bytesOf getProgInfo).drop 4 =
          (bytesOf getProgInfo).drop (4 - short.length) := by
        rw [List.drop_append, List.drop_of_length_le (Nat.le_of_lt few), List.nil_append]
      obtain ⟨middle, discarded⟩ := drainRound_discards (noInfo.ne some split)
        (noPrint.ne some split) ((short ++ bytesOf getProgInfo).drop 4 ++ getProgInfos count) out
      obtain ⟨restInfo, restPrint⟩ := freeOf_rest short.length few some
      have restLength : ((bytesOf getProgInfo).drop (4 - short.length)).length = short.length := by
        rw [List.length_drop, length_bytesOf]
        omega
      obtain ⟨out', loops⟩ := ih (by omega) (by omega) restInfo restPrint middle
      refine ⟨out', ?_⟩
      rw [getProgInfos_succ, ← List.append_assoc, split, List.append_assoc]
      refine .goesOn discarded ?_
      rw [left]
      exact loops

/-- The loop has read the garbage, perhaps more, and at last a `GET_PROG_INFO`. -/
def Resynchronises (garbage words out : List UInt8) : Prop :=
  ∃ discarded after, drain ⟨garbage ++ words, out⟩ = .ok () after ∧
    words = discarded ++ bytesOf getProgInfo ++ after.tty

theorem drain_aligned {garbage : List UInt8} (noInfo : FreeOf getProgInfo garbage)
    (noPrint : FreeOf printString garbage) (aligned : garbage.length % 4 = 0) (count : Nat)
    (out : List UInt8) : Resynchronises garbage (getProgInfos (count + 1)) out := by
  obtain ⟨out', rest⟩ := loops_garbage noInfo noPrint (getProgInfos (count + 1)) out
  have none : garbage.drop (garbage.length / 4 * 4) = [] :=
    List.drop_of_length_le (by omega)
  have loops := rest (.ok () ⟨getProgInfos count, out'⟩) (by
    rw [none, List.nil_append, getProgInfos_succ]
    exact .ends (drainRound_found _ _))
  refine ⟨[], _, (drain_loops _).unique loops, ?_⟩
  rw [getProgInfos_succ, List.nil_append]

theorem drain_misaligned {garbage : List UInt8} (noInfo : FreeOf getProgInfo garbage)
    (noPrint : FreeOf printString garbage) (misaligned : garbage.length % 4 ≠ 0) (count : Nat)
    (out : List UInt8) :
    ∃ out', drain ⟨garbage ++ getProgInfos count, out⟩ = .error timedOut ⟨[], out'⟩ := by
  obtain ⟨middle, rest⟩ := loops_garbage noInfo noPrint (getProgInfos count) out
  have shortLength : (garbage.drop (garbage.length / 4 * 4)).length = garbage.length % 4 := by
    rw [List.length_drop]
    omega
  obtain ⟨out', loops⟩ := loops_misaligned count (by omega) (by omega)
    (noInfo.drop (garbage.length / 4 * 4)) (noPrint.drop _) middle
  exact ⟨out', (drain_loops _).unique (rest _ loops)⟩

/-- However many words the pi sends, the unix side finds one exactly when the
garbage before them is a number of words. -/
theorem drain_resynchronises_iff {garbage words : List UInt8} {count : Nat} (two : 2 ≤ count)
    (sent : waitForData (List.replicate count false) [] = .error .blocked words)
    (noInfo : FreeOf getProgInfo garbage) (noPrint : FreeOf printString garbage)
    (out : List UInt8) : Resynchronises garbage words out ↔ garbage.length % 4 = 0 := by
  rw [waitForData_apply, List.nil_append] at sent
  cases sent
  constructor
  · rintro ⟨discarded, after, returned, _⟩
    by_contra misaligned
    obtain ⟨out', stopped⟩ := drain_misaligned noInfo noPrint misaligned count out
    rw [stopped] at returned
    cases returned
  · intro aligned
    obtain ⟨more, rfl⟩ := Nat.exists_eq_add_of_le' two
    exact drain_aligned noInfo noPrint aligned (more + 1) out

theorem drain_resynchronises_iff_of_word :
    Resynchronises [0x22, 0x11, 0x11, 0x22] (getProgInfos 2) [] :=
  (drain_resynchronises_iff (Nat.le_refl 2) (waitForData_apply 2 []) (by decide) (by decide)
    []).mpr rfl

/-- One byte of garbage hides all words of the pi. -/
theorem drain_lost_behind_byte :
    waitForData (List.replicate 2 false) [] = .error .blocked (getProgInfos 2) ∧
      FreeOf getProgInfo [0] ∧ FreeOf printString [0] ∧
      ¬ Resynchronises [0] (getProgInfos 2) [] := by
  refine ⟨waitForData_apply 2 [], by decide, by decide, ?_⟩
  rintro ⟨discarded, after, returned, _⟩
  have noInfo : FreeOf getProgInfo [0] := by decide
  obtain ⟨out', stopped⟩ := drain_misaligned noInfo (by decide) (by decide) 2 []
  rw [stopped] at returned
  cases returned

end Cs140e.Bootloader
