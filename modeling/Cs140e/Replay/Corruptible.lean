import Cs140e.Bootloader.SimpleBoot
import Cs140e.Replay.RoundTrip

/-!
# The last byte that can be corrupted

A translation of the scan at the start of `replay.c`: the loop of `main` that
looks for the pi's `BOOT_SUCCESS` in the log.  The state of the programs is the
list of the entries they have read so far, by their indices in the table.
-/

namespace Cs140e.Replay

open Cs140e.Library
open Cs140e.Bootloader

/-- `log[i]`. -/
def entAt (log : List LogEnt) (i : Nat) : Prog (List Nat) LogEnt := do
  modify fun reads => reads ++ [i]
  match log[i]? with
  | some e => pure e
  | none => throw (.undefined "log[i] behind the table")

/-- The loop of `log_eq32` over the senders. -/
def sendersLoop (log : List LogEnt) (e : Nat) (sender : UInt8) : Nat → Nat → Prog (List Nat) Bool
  | 0, _ => pure true
  | left + 1, i => do
      if (← entAt log (e + i)).sender ≠ sender then pure false
      else sendersLoop log e sender left (i + 1)

/-- `log_eq32` on the entries from `log + e` on. -/
def logEq32 (log : List LogEnt) (e : Nat) (v : UInt32) : Prog (List Nat) Bool := do
  let sender := (← entAt log e).sender
  if ← sendersLoop log e sender 4 0 then
    let v0 := (← entAt log e).v
    let v1 := (← entAt log (e + 1)).v
    let v2 := (← entAt log (e + 2)).v
    let v3 := (← entAt log (e + 3)).v
    let vv := v3.toUInt32 <<< 24 ||| v2.toUInt32 <<< 16 ||| v1.toUInt32 <<< 8 ||| v0.toUInt32
    pure (v == vv)
  else pure false

/-- Where the loop of `main` ended, by the `break` or by its bound. -/
structure Scan where
  found : Bool
  i : Nat
  ncorrupt : Nat
  deriving DecidableEq, Repr

/-- The loop of `main` with the number of rounds that its bound still allows.
`log_parse_tuples` counts the entries in an `int`, so the counters of a scan that
stays inside of the log do not overflow. -/
def scanLoop (log : List LogEnt) : Nat → Nat → Nat → Prog (List Nat) Scan
  | 0, i, ncorrupt => pure ⟨false, i, ncorrupt⟩
  | left + 1, i, ncorrupt => do
      if (← entAt log i).sender ≠ piOutput then scanLoop log left (i + 1) ncorrupt
      else if ← logEq32 log i bootSuccess then pure ⟨true, i, ncorrupt + 3⟩
      else scanLoop log left (i + 1) (ncorrupt + 1)

/-- The bound `n-4` is unsigned. -/
def scan (log : List LogEnt) (n : UInt32) : Prog (List Nat) Scan :=
  scanLoop log (n - 4).toNat 0 0

/-! ## What the scan looks for -/

/-- The pi sends `BOOT_SUCCESS` in the four entries from `i` on. -/
def SpellsAt (log : List LogEnt) (i : Nat) : Prop :=
  (log.drop i).take 4 = (LittleEndian.bytesOf bootSuccess).map fun v => ⟨piOutput, v⟩

instance (log : List LogEnt) (i : Nat) : Decidable (SpellsAt log i) :=
  inferInstanceAs (Decidable (_ = _))

/-- The number of entries that the pi sent. -/
def piCount (log : List LogEnt) : Nat := log.countP fun e => e.sender == piOutput

theorem SpellsAt.inside {log : List LogEnt} {i : Nat} (spells : SpellsAt log i) :
    i + 4 ≤ log.length := by
  have lengths := congrArg List.length spells
  rw [List.length_take, List.length_drop, List.length_map, LittleEndian.length_bytesOf] at lengths
  omega

theorem SpellsAt.sender {log : List LogEnt} {i : Nat} {e : LogEnt} (spells : SpellsAt log i)
    (here : log[i]? = some e) : e.sender = piOutput := by
  have heads := congrArg List.head? spells
  rw [List.head?_take, if_neg (by decide), List.head?_drop, here] at heads
  injection heads with same
  rw [same]

/-- Four entries behind an index, one by one. -/
theorem exists_four {log : List LogEnt} {i : Nat} (inside : i + 4 ≤ log.length) :
    ∃ e0 e1 e2 e3, log[i]? = some e0 ∧ log[i + 1]? = some e1 ∧ log[i + 2]? = some e2 ∧
      log[i + 3]? = some e3 ∧ (log.drop i).take 4 = [e0, e1, e2, e3] := by
  refine ⟨log[i], log[i + 1], log[i + 2], log[i + 3], ?_⟩
  refine ⟨List.getElem?_eq_getElem .., List.getElem?_eq_getElem .., List.getElem?_eq_getElem ..,
    List.getElem?_eq_getElem .., ?_⟩
  rw [List.drop_eq_getElem_cons (by omega), List.drop_eq_getElem_cons (by omega),
    List.drop_eq_getElem_cons (by omega), List.drop_eq_getElem_cons (by omega)]
  rfl

/-! ## Reading below a bound -/

/-- The program returns this value and reads only entries below the bound. -/
def ReadsBelow {α : Type} (bound : Nat) (program : Prog (List Nat) α) (value : α) : Prop :=
  ∀ reads, ∃ more, program reads = .ok value (reads ++ more) ∧ ∀ j ∈ more, j < bound

namespace ReadsBelow

variable {α β : Type} {bound : Nat}

theorem pure (value : α) : ReadsBelow bound (Pure.pure value) value := fun reads =>
  ⟨[], by rw [List.append_nil]; rfl, fun _ none => absurd none List.not_mem_nil⟩

theorem bind {program : Prog (List Nat) α} {next : α → Prog (List Nat) β} {first : α} {value : β}
    (left : ReadsBelow bound program first) (right : ReadsBelow bound (next first) value) :
    ReadsBelow bound (program >>= next) value := by
  intro reads
  obtain ⟨more, ran, below⟩ := left reads
  obtain ⟨rest, ranRest, belowRest⟩ := right (reads ++ more)
  refine ⟨more ++ rest, ?_, ?_⟩
  · rw [Prog.bind_of_ok ran, ranRest, List.append_assoc]
  · intro j read
    exact (List.mem_append.mp read).elim (below j) (belowRest j)

theorem entAt {log : List LogEnt} {i : Nat} {e : LogEnt} (here : log[i]? = some e)
    (inside : i < bound) : ReadsBelow bound (entAt log i) e := by
  intro reads
  refine ⟨[i], ?_, ?_⟩
  · rw [Replay.entAt, Prog.bind_of_ok (Prog.modify_apply _ _), here]
    rfl
  · intro j read
    rw [List.mem_singleton.mp read]
    exact inside

theorem sendersLoop_succ {log : List LogEnt} {i k left : Nat} {sender : UInt8} {e : LogEnt}
    {verdict : Bool} (here : log[i + k]? = some e) (inside : i + k < bound)
    (rest : ReadsBelow bound (sendersLoop log i sender left (k + 1)) verdict) :
    ReadsBelow bound (sendersLoop log i sender (left + 1) k)
      (decide (e.sender = sender) && verdict) := by
  rw [sendersLoop]
  refine (entAt here inside).bind ?_
  by_cases same : e.sender = sender
  · rw [if_neg (not_not_intro same), decide_eq_true same]
    exact rest
  · rw [if_pos same, decide_eq_false same]
    exact .pure false

theorem logEq32 {log : List LogEnt} {i : Nat} {e0 e1 e2 e3 : LogEnt} (here0 : log[i]? = some e0)
    (here1 : log[i + 1]? = some e1) (here2 : log[i + 2]? = some e2)
    (here3 : log[i + 3]? = some e3) (inside : i + 3 < bound) (v : UInt32) :
    ReadsBelow bound (logEq32 log i v)
      (decide (e1.sender = e0.sender ∧ e2.sender = e0.sender ∧ e3.sender = e0.sender ∧
        v = LittleEndian.wordOf [e0.v, e1.v, e2.v, e3.v])) := by
  have ends : ReadsBelow bound (sendersLoop log i e0.sender 0 4) true := .pure true
  have senders := sendersLoop_succ (k := 0) here0 (by omega) (sendersLoop_succ here1 (by omega)
    (sendersLoop_succ here2 (by omega) (sendersLoop_succ here3 inside ends)))
  rw [Replay.logEq32]
  refine (entAt here0 (by omega)).bind (senders.bind ?_)
  by_cases all : e1.sender = e0.sender ∧ e2.sender = e0.sender ∧ e3.sender = e0.sender
  · obtain ⟨same1, same2, same3⟩ := all
    rw [decide_eq_true rfl, decide_eq_true same1, decide_eq_true same2, decide_eq_true same3]
    refine (entAt here0 (by omega)).bind ((entAt here1 (by omega)).bind
      ((entAt here2 (by omega)).bind ((entAt here3 inside).bind ?_)))
    dsimp only
    rw [LittleEndian.or_shift_reverse]
    simp only [same1, same2, same3, true_and]
    exact .pure _
  · have none : (decide (e0.sender = e0.sender) && (decide (e1.sender = e0.sender) &&
        (decide (e2.sender = e0.sender) && (decide (e3.sender = e0.sender) && true)))) = false := by
      rw [decide_eq_true rfl]
      simpa using all
    rw [none, decide_eq_false fun fourth => all ⟨fourth.1, fourth.2.1, fourth.2.2.1⟩]
    exact .pure false

/-- On an entry of the pi `log_eq32` tests whether `BOOT_SUCCESS` starts there. -/
theorem logEq32_bootSuccess {entries : List LogEnt} (spare : List LogEnt) {i : Nat} {e : LogEnt}
    (here : entries[i]? = some e) (pi : e.sender = piOutput) (inside : i + 4 ≤ entries.length) :
    ReadsBelow entries.length (Replay.logEq32 (entries ++ spare) i bootSuccess)
      (decide (SpellsAt entries i)) := by
  obtain ⟨e0, e1, e2, e3, here0, here1, here2, here3, four⟩ := exists_four inside
  have table : ∀ {j : Nat} {e : LogEnt}, entries[j]? = some e →
      (entries ++ spare)[j]? = some e := by
    intro j e here
    rw [List.getElem?_append_left (List.getElem?_eq_some_iff.mp here).1, here]
  have verdict := ReadsBelow.logEq32 (table here0) (table here1) (table here2) (table here3)
    (by omega : i + 3 < entries.length) bootSuccess
  cases here0.symm.trans here
  rw [pi] at verdict
  have same : SpellsAt entries i ↔ e1.sender = piOutput ∧ e2.sender = piOutput ∧
      e3.sender = piOutput ∧ bootSuccess = LittleEndian.wordOf [e.v, e1.v, e2.v, e3.v] := by
    rw [SpellsAt, four]
    constructor
    · intro spells
      have senders := congrArg (List.map LogEnt.sender) spells
      have bytes : [e.v, e1.v, e2.v, e3.v] = LittleEndian.bytesOf bootSuccess :=
        congrArg (List.map LogEnt.v) spells
      rw [bytes, LittleEndian.wordOf_bytesOf]
      injection senders with _ senders
      injection senders with pi1 senders
      injection senders with pi2 senders
      injection senders with pi3
      exact ⟨pi1, pi2, pi3, rfl⟩
    · rintro ⟨pi1, pi2, pi3, word⟩
      obtain ⟨_, _⟩ := e
      obtain ⟨_, _⟩ := e1
      obtain ⟨_, _⟩ := e2
      obtain ⟨_, _⟩ := e3
      dsimp only at pi pi1 pi2 pi3 word
      rw [word, LittleEndian.bytesOf_wordOf, pi, pi1, pi2, pi3]
      rfl
  rw [decide_eq_decide.mpr same]
  exact verdict

end ReadsBelow

/-! ## The scan of a log of at least four entries -/

/-- A scan that examined the entries up to some index, `last` at most. -/
inductive Scanned (entries : List LogEnt) (last : Nat) : Scan → Prop where
  | found {i : Nat} (inside : i < last) (spells : SpellsAt entries i)
      (first : ∀ j < i, ¬ SpellsAt entries j) :
      Scanned entries last ⟨true, i, piCount (entries.take i) + 3⟩
  | ended (none : ∀ j < last, ¬ SpellsAt entries j) :
      Scanned entries last ⟨false, last, piCount (entries.take last)⟩

theorem piCount_take_succ {entries : List LogEnt} {i : Nat} {e : LogEnt}
    (here : entries[i]? = some e) : piCount (entries.take (i + 1)) =
      piCount (entries.take i) + if e.sender = piOutput then 1 else 0 := by
  obtain ⟨inside, rfl⟩ := List.getElem?_eq_some_iff.mp here
  rw [List.take_succ_eq_append_getElem inside, piCount, List.countP_append, List.countP_singleton]
  simp only [beq_iff_eq, piCount]

/-- The invariant: nothing was found below `i`, and `ncorrupt` counts what the
pi sent there. -/
theorem scanLoop_scanned (entries spare : List LogEnt) {last left i : Nat}
    (inside : last + 4 ≤ entries.length + 1) (rounds : i + left = last)
    (none : ∀ j < i, ¬ SpellsAt entries j) :
    ∃ s, ReadsBelow entries.length
      (scanLoop (entries ++ spare) left i (piCount (entries.take i))) s ∧
      Scanned entries last s := by
  induction left generalizing i with
  | zero =>
      rw [Nat.add_zero] at rounds
      subst rounds
      exact ⟨_, .pure _, .ended none⟩
  | succ left ih =>
      have below : i < entries.length := by omega
      have here : entries[i]? = some entries[i] := List.getElem?_eq_getElem below
      have table : (entries ++ spare)[i]? = some entries[i] := by
        rw [List.getElem?_append_left below, here]
      have next : ¬ SpellsAt entries i → ∀ j < i + 1, ¬ SpellsAt entries j := by
        intro not j small
        rcases Nat.lt_succ_iff_lt_or_eq.mp small with before | rfl
        · exact none j before
        · exact not
      have counts := piCount_take_succ here
      rw [scanLoop]
      by_cases pi : entries[i].sender = piOutput
      · have test := ReadsBelow.logEq32_bootSuccess spare here pi (by omega)
        by_cases spells : SpellsAt entries i
        · refine ⟨_, (ReadsBelow.entAt table below).bind ?_,
            .found (by omega) spells none⟩
          rw [if_neg (not_not_intro pi)]
          refine test.bind ?_
          rw [decide_eq_true spells]
          exact .pure _
        · rw [if_pos pi] at counts
          obtain ⟨s, ran, scanned⟩ := ih (by omega) (next spells)
          refine ⟨s, (ReadsBelow.entAt table below).bind ?_, scanned⟩
          rw [if_neg (not_not_intro pi)]
          refine test.bind ?_
          rw [decide_eq_false spells]
          rw [counts] at ran
          exact ran
      · have not : ¬ SpellsAt entries i := fun spells => pi (spells.sender here)
        rw [if_neg pi] at counts
        obtain ⟨s, ran, scanned⟩ := ih (by omega) (next not)
        refine ⟨s, (ReadsBelow.entAt table below).bind ?_, scanned⟩
        rw [if_pos pi]
        rw [counts] at ran
        exact ran

/-! ## The scan of a shorter log -/

/-- A program that returned has read more entries and forgotten none. -/
def Grows {α : Type} (program : Prog (List Nat) α) : Prop :=
  ∀ ⦃reads after value⦄, program reads = .ok value after → reads <+: after

namespace Grows

variable {α β : Type}

theorem pure (value : α) : Grows (Pure.pure value) := by
  intro reads after result returned
  cases returned
  exact List.prefix_refl reads

theorem bind {program : Prog (List Nat) α} {next : α → Prog (List Nat) β} (left : Grows program)
    (right : ∀ value, Grows (next value)) : Grows (program >>= next) := by
  intro reads after result returned
  obtain ⟨value, middle, first, rest⟩ := Prog.ok_of_bind_ok returned
  exact (left first).trans (right value rest)

theorem ite {holds : Prop} [Decidable holds] {yes no : Prog (List Nat) α} (left : Grows yes)
    (right : Grows no) : Grows (if holds then yes else no) := by
  split
  · exact left
  · exact right

end Grows

theorem entAt_returned {log : List LogEnt} {i : Nat} {reads after : List Nat} {e : LogEnt}
    (returned : entAt log i reads = .ok e after) : after = reads ++ [i] := by
  rw [entAt, Prog.bind_of_ok (Prog.modify_apply _ _)] at returned
  cases here : log[i]? with
  | none =>
      rw [here] at returned
      cases returned
  | some found =>
      rw [here] at returned
      cases returned
      rfl

theorem entAt_grows (log : List LogEnt) (i : Nat) : Grows (entAt log i) := by
  intro reads after e returned
  rw [entAt_returned returned]
  exact List.prefix_append reads [i]

theorem sendersLoop_grows (log : List LogEnt) (e : Nat) (sender : UInt8) (left i : Nat) :
    Grows (sendersLoop log e sender left i) := by
  induction left generalizing i with
  | zero => exact .pure true
  | succ left ih => exact (entAt_grows log _).bind fun _ => .ite (.pure false) (ih _)

theorem logEq32_grows (log : List LogEnt) (e : Nat) (v : UInt32) : Grows (logEq32 log e v) :=
  (entAt_grows log _).bind fun _ => (sendersLoop_grows log _ _ _ _).bind fun _ =>
    .ite ((entAt_grows log _).bind fun _ => (entAt_grows log _).bind fun _ =>
      (entAt_grows log _).bind fun _ => (entAt_grows log _).bind fun _ => .pure _) (.pure false)

/-- A word that was found was read to its end. -/
theorem logEq32_reads {log : List LogEnt} {e : Nat} {v : UInt32} {reads after : List Nat}
    (returned : logEq32 log e v reads = .ok true after) : e + 3 ∈ after := by
  obtain ⟨_, _, _, rest⟩ := Prog.ok_of_bind_ok returned
  obtain ⟨all, _, _, rest⟩ := Prog.ok_of_bind_ok rest
  cases all with
  | false => cases rest
  | true =>
      obtain ⟨_, _, _, rest⟩ := Prog.ok_of_bind_ok rest
      obtain ⟨_, _, _, rest⟩ := Prog.ok_of_bind_ok rest
      obtain ⟨_, _, _, rest⟩ := Prog.ok_of_bind_ok rest
      obtain ⟨_, _, last, rest⟩ := Prog.ok_of_bind_ok rest
      injection rest with _ same
      rw [← same, entAt_returned last]
      exact List.mem_append_right _ (List.mem_singleton.mpr rfl)

theorem scanLoop_grows (log : List LogEnt) (left i ncorrupt : Nat) :
    Grows (scanLoop log left i ncorrupt) := by
  induction left generalizing i ncorrupt with
  | zero => exact .pure _
  | succ left ih =>
      exact (entAt_grows log _).bind fun _ => .ite (ih _ _)
        ((logEq32_grows log _ _).bind fun _ => .ite (.pure _) (ih _ _))

/-- With more rounds to go than there are entries left, the scan leaves a log
that is shorter than a word. -/
theorem scanLoop_leaves {log : List LogEnt} {n left i ncorrupt : Nat} {reads after : List Nat}
    {s : Scan} (short : n < 4) (begun : i ≤ n) (rounds : n < i + left)
    (returned : scanLoop log left i ncorrupt reads = .ok s after) : ∃ j ∈ after, n ≤ j := by
  induction left generalizing i ncorrupt reads with
  | zero => exact absurd rounds (by omega)
  | succ left ih =>
      obtain ⟨e, middle, here, rest⟩ := Prog.ok_of_bind_ok returned
      have kept : middle <+: after := Grows.ite (scanLoop_grows log _ _ _)
        ((logEq32_grows log _ _).bind fun _ => .ite (.pure _) (scanLoop_grows log _ _ _)) rest
      rcases Nat.lt_or_eq_of_le begun with inside | rfl
      · split at rest
        · exact ih inside (by omega) rest
        · obtain ⟨found, tested, test, rest⟩ := Prog.ok_of_bind_ok rest
          cases found with
          | false => exact ih inside (by omega) rest
          | true =>
              cases rest
              exact ⟨i + 3, logEq32_reads test, by omega⟩
      · rw [entAt_returned here] at kept
        exact ⟨i, kept.subset (List.mem_append_right _ (List.mem_singleton.mpr rfl)), Nat.le_refl i⟩

/-! ## When the scan is exact -/

/-- What `log_parse_tuples` makes of a recorded log: the entries, unused entries
behind them, and a number that fits into an `int`. -/
theorem logParseTuples_table {readFile : String → Option (List UInt8 × UInt32)} {name : String}
    {entries : List LogEnt} {log : List UInt8} {nbytes : UInt32}
    (opened : readFile name = some (log, nbytes)) (held : logText entries <+: log)
    (size : nbytes.toNat = (logText entries).length) :
    entries.length < 2 ^ 31 ∧ ∃ spare after,
      LogUtil.logParseTuples readFile name = .ok (entries ++ spare, entries.length) after := by
  have small := nbytes.toNat_lt
  rw [size, length_logText] at small
  obtain ⟨table, after, parsed, same⟩ :=
    logParseTuples_logText LogUtil.readsLines opened held size
  refine ⟨by omega, table.drop entries.length, after, ?_⟩
  have split := List.take_append_drop entries.length table
  rw [same] at split
  rw [split]
  exact parsed

/-- The scan reads nothing but the entries of the log.  It stops at the first
`BOOT_SUCCESS` of the pi and counts what the pi sent before it and three bytes
more; if there is none it has counted what the pi sent in the entries examined. -/
def ScansExactly (entries : List LogEnt) (outcome : Outcome (List Nat) Scan) : Prop :=
  ∃ s reads, outcome = .ok s reads ∧ (∀ j ∈ reads, j < entries.length) ∧
    ((s.found = true ∧ SpellsAt entries s.i ∧ (∀ j < s.i, ¬ SpellsAt entries j) ∧
        s.ncorrupt = piCount (entries.take s.i) + 3) ∨
      (s.found = false ∧ (∀ i, ¬ SpellsAt entries i) ∧
        s.ncorrupt = piCount (entries.take s.i)))

/-- Whatever lies behind the entries in the table, the scan is exact if and only
if there are at least four entries and the first `BOOT_SUCCESS` does not end the log. -/
theorem replay_scan_exact_iff (entries spare : List LogEnt) (small : entries.length < 2 ^ 31) :
    ScansExactly entries (scan (entries ++ spare) (UInt32.ofNat entries.length) []) ↔
      4 ≤ entries.length ∧ (SpellsAt entries (entries.length - 4) →
        ∃ i < entries.length - 4, SpellsAt entries i) := by
  have size : (UInt32.ofNat entries.length).toNat = entries.length :=
    UInt32.toNat_ofNat_of_lt' (Nat.lt_trans small (by decide))
  have bound : (UInt32.ofNat entries.length - 4).toNat =
      (2 ^ 32 - 4 + entries.length) % 2 ^ 32 := by
    rw [UInt32.toNat_sub, size]
    rfl
  rw [scan, bound]
  by_cases four : 4 ≤ entries.length
  · rw [show (2 ^ 32 - 4 + entries.length) % 2 ^ 32 = entries.length - 4 by omega]
    have inside : entries.length - 4 + 4 ≤ entries.length + 1 := by omega
    obtain ⟨s, ran, scanned⟩ := scanLoop_scanned entries spare inside (Nat.zero_add _)
      (fun j below => absurd below (Nat.not_lt_zero j))
    obtain ⟨reads, returned, below⟩ := ran []
    change scanLoop _ _ 0 0 [] = .ok s reads at returned
    rw [returned]
    constructor
    · rintro ⟨_, _, same, _, ending⟩
      cases same
      refine ⟨four, fun spells => ?_⟩
      cases scanned with
      | found inside earlier _ => exact ⟨_, inside, earlier⟩
      | ended none =>
          obtain ⟨found, _⟩ | ⟨_, never, _⟩ := ending
          · cases found
          · exact absurd spells (never _)
    · rintro ⟨_, earlier⟩
      cases scanned with
      | found inside spells first =>
          exact ⟨_, _, rfl, below, .inl ⟨rfl, spells, first, rfl⟩⟩
      | ended none =>
          refine ⟨_, _, rfl, below, .inr ⟨rfl, fun i spells => ?_, rfl⟩⟩
          have fits := spells.inside
          rcases Nat.lt_or_eq_of_le (by omega : i ≤ entries.length - 4) with before | rfl
          · exact none i before spells
          · obtain ⟨j, before, spells⟩ := earlier spells
            exact none j before spells
  · have rounds : entries.length < 0 + (2 ^ 32 - 4 + entries.length) % 2 ^ 32 := by omega
    constructor
    · rintro ⟨s, reads, returned, below, _⟩
      obtain ⟨j, read, outside⟩ := scanLoop_leaves (Nat.lt_of_not_le four) (Nat.zero_le _) rounds
        returned
      exact absurd (below j read) (Nat.not_lt_of_le outside)
    · exact fun both => absurd both.1 four

/-- A byte of the other side, the pi's `BOOT_SUCCESS`, and one byte of output. -/
def bootedLog : List LogEnt :=
  ⟨unixOutput, 7⟩ :: (LittleEndian.bytesOf bootSuccess).map (fun v => ⟨piOutput, v⟩) ++
    [⟨piOutput, 10⟩]

theorem replay_scan_exact_iff_of_bootedLog :
    ScansExactly bootedLog (scan (bootedLog ++ [⟨0, 0⟩]) (UInt32.ofNat bootedLog.length) []) :=
  (replay_scan_exact_iff bootedLog [⟨0, 0⟩] (by decide)).mpr (by decide)

/-- The pi's `BOOT_SUCCESS` and nothing behind it. -/
def bootedLast : List LogEnt :=
  (LittleEndian.bytesOf bootSuccess).map fun v => ⟨piOutput, v⟩

/-- The scan ends without a look at it. -/
theorem last_boot_success_is_missed :
    scan (bootedLast ++ [⟨0, 0⟩]) (UInt32.ofNat bootedLast.length) [] = .ok ⟨false, 0, 0⟩ [] ∧
      SpellsAt bootedLast 0 ∧
      ¬ ScansExactly bootedLast
        (scan (bootedLast ++ [⟨0, 0⟩]) (UInt32.ofNat bootedLast.length) []) := by
  have ended : scan (bootedLast ++ [⟨0, 0⟩]) (UInt32.ofNat bootedLast.length) [] =
      .ok ⟨false, 0, 0⟩ [] := rfl
  have spells : SpellsAt bootedLast 0 := by decide
  refine ⟨ended, spells, ?_⟩
  rintro ⟨s, reads, returned, _, ending⟩
  rw [ended] at returned
  cases returned
  obtain ⟨found, _⟩ | ⟨_, never, _⟩ := ending
  · cases found
  · exact never 0 spells

end Cs140e.Replay
