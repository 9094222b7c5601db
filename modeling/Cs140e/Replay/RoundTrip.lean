import Cs140e.Library.Buffer
import Cs140e.Replay.LogText

/-!
# What is logged is read back

The reader of `log-util.c` inverts `wr_log_byte`, and the reader of
`pretty-print.c` follows it on every file it accepts.
-/

namespace Cs140e.Replay

open Cs140e.Library

/-! ## Reading back -/

/-- The table once the given entries are stored. -/
def filled (ents : List LogEnt) (size : Nat) : List LogEnt :=
  ents ++ List.replicate (size - ents.length) ⟨0, 0⟩

theorem filled_set {first : List LogEnt} {size : Nat} (room : first.length < size)
    (ent : LogEnt) : (filled first size).set first.length ent = filled (first ++ [ent]) size := by
  obtain ⟨left, leftEq⟩ : ∃ left, size - first.length = left + 1 :=
    ⟨size - first.length - 1, by omega⟩
  have fewer : size - (first ++ [ent]).length = left := by
    rw [List.length_append, List.length_singleton]
    omega
  rw [filled, filled, leftEq, fewer, List.replicate_succ, set_done]

theorem length_filled {ents : List LogEnt} {size : Nat} (room : ents.length ≤ size) :
    (filled ents size).length = size := by
  rw [filled, List.length_append, List.length_replicate]
  omega

/-- A reader that takes one line at a time and stops at the end of the log. -/
structure ReadsLines (logReadline : Prog LogT (Option LogEnt)) : Prop where
  line : ∀ {content text l} (ent : LogEnt), At content l (ent.line ++ text) →
    ∃ after, logReadline l = .ok (some ent) after ∧ At content after text
  ending : ∀ {content l}, At content l [] → logReadline l = .ok none l

theorem LogUtil.readsLines : ReadsLines LogUtil.logReadline :=
  ⟨fun ent here => here.logReadline ent, fun here => here.logReadline_end⟩

theorem tuplesLoop_logText {logReadline : Prog LogT (Option LogEnt)}
    (reads : ReadsLines logReadline) (size fuel : Nat) (first : List LogEnt) {ents : List LogEnt}
    {l : LogT} (here : At (logText (first ++ ents)) l (logText ents))
    (room : first.length + ents.length ≤ size) (enough : ents.length < fuel) :
    ∃ after, tuplesLoop logReadline fuel first.length (filled first size) l =
      .ok (filled (first ++ ents) size, first.length + ents.length) after := by
  induction ents generalizing first fuel l with
  | nil =>
      obtain ⟨less, rfl⟩ : ∃ less, fuel = less + 1 := ⟨fuel - 1, by omega⟩
      refine ⟨l, ?_⟩
      rw [List.append_nil, tuplesLoop, Prog.bind_of_ok (reads.ending here)]
      rfl
  | cons ent ents ih =>
      rw [List.length_cons] at room
      obtain ⟨less, rfl⟩ : ∃ less, fuel = less + 1 := ⟨fuel - 1, by omega⟩
      have whole : first ++ ent :: ents = first ++ [ent] ++ ents := by
        rw [List.append_assoc]
        rfl
      obtain ⟨middle, ran, there⟩ := reads.line ent here
      have within : first.length ≤ size := by omega
      have inside : ¬ (filled first size).length ≤ first.length := by
        rw [length_filled within]
        omega
      have counted : decide (first.length ≤ middle.nbytes.toNat) = true := by
        rw [decide_eq_true_iff, there.nbytes_eq, length_logText, List.length_append]
        omega
      rw [whole] at there ⊢
      rw [List.length_cons] at enough
      obtain ⟨after, rest⟩ := ih less (first ++ [ent]) there
        (by rw [List.length_append, List.length_singleton]; omega) (by omega)
      refine ⟨after, ?_⟩
      rw [tuplesLoop, Prog.bind_of_ok ran]
      dsimp only
      rw [if_neg inside, Prog.bind_of_ok (Prog.get_apply _),
        Prog.bind_of_ok (Prog.assertThat_of _ _ counted), filled_set (by omega)]
      rw [List.length_append, List.length_singleton] at rest
      rw [rest, List.length_cons]
      congr 2
      omega

/-- `read_file` returns the bytes of the file, perhaps padded, and their number. -/
def ReadsFiles (files : String → Option (List UInt8))
    (readFile : String → Option (List UInt8 × UInt32)) : Prop :=
  ∀ name log nbytes, readFile name = some (log, nbytes) →
    ∃ content, files name = some content ∧ content <+: log ∧ nbytes.toNat = content.length

/-- Reading the file gives the entries and their number. -/
def Yields (ents : List LogEnt) (outcome : Outcome LogT (List LogEnt × Nat)) : Prop :=
  ∃ e after, outcome = .ok (e, ents.length) after ∧ e.take ents.length = ents

theorem logParseTuples_logText {logReadline : Prog LogT (Option LogEnt)}
    (reads : ReadsLines logReadline) {readFile : String → Option (List UInt8 × UInt32)}
    {name : String} {ents : List LogEnt} {log : List UInt8} {nbytes : UInt32}
    (opened : readFile name = some (log, nbytes)) (held : logText ents <+: log)
    (size : nbytes.toNat = (logText ents).length) :
    Yields ents (logParseTuples logReadline readFile name) := by
  have bound := nbytes.toNat_lt
  have lines := length_logText ents
  -- the table has one entry more than the file has bytes, and no file of whole lines fills 32 bits
  have noWrap : nbytes.toNat + 1 < 2 ^ 32 := by omega
  have table : (nbytes + 1).toNat = nbytes.toNat + 1 := by
    rw [UInt32.toNat_add, show (1 : UInt32).toNat = 1 from rfl, Nat.mod_eq_of_lt noWrap]
  have here : At (logText ([] ++ ents)) ⟨log, nbytes, 0, 1⟩ (logText ents) := At.start size held 1
  obtain ⟨after, ran⟩ := tuplesLoop_logText reads (nbytes + 1).toNat (nbytes.toNat + 1) [] here
    (by rw [List.length_nil]; omega) (by omega)
  rw [List.nil_append, List.length_nil, Nat.zero_add] at ran
  refine ⟨filled ents (nbytes + 1).toNat, after, ?_, List.take_left⟩
  rw [logParseTuples, opened]
  exact ran

/-! ## The lenient reader follows the strict one -/

/-- Two logs that differ at most in the line they count. -/
structure SameLog (l l' : LogT) : Prop where
  log_eq : l.log = l'.log
  nbytes_eq : l.nbytes = l'.nbytes
  off_eq : l.off = l'.off

namespace SameLog

variable {l l' : LogT}

theorem logIsEol (same : SameLog l l') : Agree SameLog (logIsEol l) (Replay.logIsEol l') := by
  rw [Replay.logIsEol, Prog.bind_of_ok (Prog.get_apply l), Prog.bind_of_ok (Prog.get_apply l'),
    same.nbytes_eq, same.off_eq]
  exact .returned _ same

theorem assertThat (same : SameLog l l') (holds : Bool) (message : String) :
    Agree SameLog (Prog.assertThat holds message l) (Prog.assertThat holds message l') := by
  cases holds with
  | true => exact .returned () same
  | false => exact .stopped _ l l'

theorem logAt (same : SameLog l l') : Agree SameLog (logAt l) (Replay.logAt l') := by
  rw [Replay.logAt, Prog.bind_of_ok (Prog.get_apply l), Prog.bind_of_ok (Prog.get_apply l'),
    same.log_eq, same.off_eq]
  cases l'.log[l'.off.toNat]? with
  | none => exact .stopped _ l l'
  | some c => exact .returned c same

theorem logGetc (same : SameLog l l') : Agree SameLog (logGetc l) (Replay.logGetc l') := by
  rw [Replay.logGetc, Prog.bind_of_ok (Prog.get_apply l), Prog.bind_of_ok (Prog.get_apply l'),
    same.nbytes_eq, same.off_eq]
  refine (same.assertThat _ _).bind fun _ _ _ same => ?_
  refine same.logAt.bind fun c first second same => ?_
  exact .returned c ⟨same.log_eq, same.nbytes_eq, congrArg (· + 1) same.off_eq⟩

theorem expTok (same : SameLog l l') (exp : UInt8) :
    Agree SameLog (expTok exp l) (Replay.expTok exp l') := by
  refine same.logGetc.bind fun got first second same => ?_
  by_cases differs : exp ≠ got
  · rw [if_pos differs]
    exact .stopped _ first second
  · rw [if_neg differs]
    exact .returned () same

theorem hex2int (same : SameLog l l') (ch : UInt8) :
    Agree SameLog (hex2int ch l) (Replay.hex2int ch l') := by
  rw [Replay.hex2int]
  split
  · exact .returned _ same
  split
  · exact .returned _ same
  split
  · exact .returned _ same
  · exact .stopped _ l l'

theorem logGetHex (same : SameLog l l') : Agree SameLog (logGetHex l) (Replay.logGetHex l') := by
  refine (same.expTok 48).bind fun _ _ _ same => ?_
  refine (same.expTok 120).bind fun _ _ _ same => ?_
  refine same.logGetc.bind fun d1 _ _ same => ?_
  refine same.logGetc.bind fun d0 _ _ same => ?_
  refine (same.hex2int d1).bind fun high _ _ same => ?_
  refine (same.hex2int d0).bind fun low _ _ same => ?_
  exact (same.assertThat _ _).bind fun _ _ _ same => .returned _ same

/-- Where the strict reader finds the end of a line, the lenient one does. -/
theorem eatLine (same : SameLog l l') {after : LogT}
    (returned : Replay.expTok 10 l = .ok () after) :
    ∃ after', PrettyPrint.eatLine l' = .ok () after' ∧ SameLog after after' := by
  obtain ⟨got, middle, first, rest⟩ := Prog.ok_of_bind_ok returned
  have newline : got = 10 := by
    by_contra differs
    rw [if_pos (Ne.symm differs)] at rest
    cases rest
  subst newline
  cases rest
  have agree := same.logGetc
  rw [first] at agree
  obtain ⟨middle', ran, sameAfter⟩ := agree.right_of_ok
  have loop : PrettyPrint.eatLoop (l'.nbytes.toNat + 1) false l' = .ok () middle' := by
    rw [PrettyPrint.eatLoop, Prog.bind_of_ok ran, if_pos rfl]
    rfl
  refine ⟨{ middle' with lineno := middle'.lineno + 1 }, ?_,
    ⟨sameAfter.log_eq, sameAfter.nbytes_eq, sameAfter.off_eq⟩⟩
  rw [PrettyPrint.eatLine, Prog.bind_of_ok (Prog.get_apply l'), Prog.bind_of_ok loop]
  rfl

/-- A line that the strict reader accepts is read alike by the lenient one. -/
theorem logReadline (same : SameLog l l') {after : LogT} {result : Option LogEnt}
    (returned : LogUtil.logReadline l = .ok result after) :
    ∃ after', PrettyPrint.logReadline l' = .ok result after' ∧ SameLog after after' := by
  obtain ⟨eol, l1, eolRan, rest⟩ := Prog.ok_of_bind_ok returned
  have agree := same.logIsEol
  rw [eolRan] at agree
  obtain ⟨l1', eolRan', same⟩ := agree.right_of_ok
  rw [PrettyPrint.logReadline, PrettyPrint.logReadEnt, Prog.bind_of_ok eolRan']
  cases eol with
  | true =>
      rw [if_pos rfl] at rest ⊢
      cases rest
      exact ⟨l1', rfl, same⟩
  | false =>
      rw [if_neg Bool.false_ne_true] at rest ⊢
      obtain ⟨op, l2, opRan, rest⟩ := Prog.ok_of_bind_ok rest
      have agree := same.logGetc
      rw [opRan] at agree
      obtain ⟨l2', opRan', same⟩ := agree.right_of_ok
      obtain ⟨_, l3, commaRan, rest⟩ := Prog.ok_of_bind_ok rest
      have agree := same.expTok 44
      rw [commaRan] at agree
      obtain ⟨l3', commaRan', same⟩ := agree.right_of_ok
      obtain ⟨v, l4, hexRan, rest⟩ := Prog.ok_of_bind_ok rest
      have agree := same.logGetHex
      rw [hexRan] at agree
      obtain ⟨l4', hexRan', same⟩ := agree.right_of_ok
      obtain ⟨_, l5, lineRan, rest⟩ := Prog.ok_of_bind_ok rest
      obtain ⟨l5', lineRan', same⟩ := same.eatLine lineRan
      cases rest
      refine ⟨l5', ?_, same⟩
      rw [Prog.bind_of_ok opRan', Prog.bind_of_ok commaRan', Prog.bind_of_ok hexRan',
        Prog.bind_of_ok lineRan']
      rfl

theorem tuplesLoop (same : SameLog l l') {fuel i : Nat} {e : List LogEnt}
    {result : List LogEnt × Nat} {after : LogT}
    (returned : tuplesLoop LogUtil.logReadline fuel i e l = .ok result after) :
    ∃ after', Replay.tuplesLoop PrettyPrint.logReadline fuel i e l' = .ok result after' := by
  induction fuel generalizing i e l l' with
  | zero => cases returned
  | succ fuel ih =>
      obtain ⟨ent?, middle, ran, rest⟩ := Prog.ok_of_bind_ok returned
      obtain ⟨middle', ran', same⟩ := same.logReadline ran
      rw [Replay.tuplesLoop, Prog.bind_of_ok ran']
      cases ent? with
      | none =>
          cases rest
          exact ⟨middle', rfl⟩
      | some ent =>
          dsimp only at rest ⊢
          by_cases behind : e.length ≤ i
          · rw [if_pos behind] at rest
            cases rest
          · rw [if_neg behind, Prog.bind_of_ok (Prog.get_apply middle)] at rest
            rw [if_neg behind, Prog.bind_of_ok (Prog.get_apply middle'), ← same.nbytes_eq]
            obtain ⟨_, later, asserted, others⟩ := Prog.ok_of_bind_ok rest
            obtain ⟨counted, rfl⟩ := Prog.holds_of_assertThat_ok asserted
            rw [Prog.bind_of_ok (Prog.assertThat_of _ _ counted)]
            exact ih same others

end SameLog

/-! ## The two readers -/

/-- Log the entries one after the other. -/
def wrLog : List LogEnt → Prog (List UInt8) Unit
  | [] => pure ()
  | ent :: ents => do
      wrLogByte ent.sender ent.v
      wrLog ents

theorem wrLog_apply (ents : List LogEnt)
    (senders : ∀ ent ∈ ents, ent.sender = piOutput ∨ ent.sender = unixOutput)
    (file : List UInt8) : wrLog ents file = .ok () (file ++ logText ents) := by
  induction ents generalizing file with
  | nil =>
      rw [logText_nil, List.append_nil]
      rfl
  | cons ent ents ih =>
      obtain ⟨sender, others⟩ := List.forall_mem_cons.mp senders
      have named : ent.sender ≠ 0 := by
        rcases sender with pi | unix
        · rw [pi]
          decide
        · rw [unix]
          decide
      rw [wrLog, Prog.bind_of_ok (wrLogByte_apply ent named file), ih others, logText_cons,
        List.append_assoc]

/-- A log written with `wr_log_byte` is read back by `log-util.c` as it was,
and whatever `log-util.c` accepts `pretty-print.c` reads alike. -/
theorem log_readers_agree {files : String → Option (List UInt8)}
    {readFile : String → Option (List UInt8 × UInt32)} (readsFiles : ReadsFiles files readFile)
    (name : String) :
    (∀ ents : List LogEnt, (∀ ent ∈ ents, ent.sender = piOutput ∨ ent.sender = unixOutput) →
      ∃ file, wrLog ents [] = .ok () file ∧
        (files name = some file → (readFile name).isSome →
          Yields ents (LogUtil.logParseTuples readFile name))) ∧
      ∀ result after, LogUtil.logParseTuples readFile name = .ok result after →
        ∃ after', PrettyPrint.logParseTuples readFile name = .ok result after' := by
  constructor
  · intro ents senders
    refine ⟨logText ents, wrLog_apply ents senders [], fun stored opens => ?_⟩
    obtain ⟨⟨log, nbytes⟩, opened⟩ := Option.isSome_iff_exists.mp opens
    obtain ⟨content, named, held, size⟩ := readsFiles name log nbytes opened
    rw [stored] at named
    cases named
    exact logParseTuples_logText LogUtil.readsLines opened held size
  · intro result after accepted
    rw [LogUtil.logParseTuples, logParseTuples] at accepted
    rw [PrettyPrint.logParseTuples, logParseTuples]
    cases opened : readFile name with
    | none =>
        rw [opened] at accepted
        cases accepted
    | some file =>
        rw [opened] at accepted
        exact SameLog.tuplesLoop ⟨rfl, rfl, rfl⟩ accepted

theorem log_readers_agree_of_newline_byte :
    ∃ file, wrLog [⟨112, 10⟩, ⟨117, 44⟩] [] = .ok () file ∧
      Yields [⟨112, 10⟩, ⟨117, 44⟩]
        (LogUtil.logParseTuples (fun _ => some (file ++ [0, 0], 14)) "trace.log") := by
  have log := wrLog_apply [⟨112, 10⟩, ⟨117, 44⟩] (by decide) []
  refine ⟨_, log, ?_⟩
  have readsFiles : ReadsFiles (fun _ => some (logText [⟨112, 10⟩, ⟨117, 44⟩]))
      (fun _ => some (logText [⟨112, 10⟩, ⟨117, 44⟩] ++ [0, 0], 14)) := by
    intro name held nbytes opened
    cases opened
    exact ⟨_, rfl, List.prefix_append _ _, rfl⟩
  obtain ⟨file, ran, yields⟩ :=
    (log_readers_agree readsFiles "trace.log").1 [⟨112, 10⟩, ⟨117, 44⟩] (by decide)
  rw [log] at ran
  cases ran
  exact yields rfl rfl

end Cs140e.Replay
