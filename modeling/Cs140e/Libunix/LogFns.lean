import Cs140e.Library.Decimal
import Cs140e.Library.Input
import Cs140e.Library.Numeral
import Mathlib.Logic.Relation

/-!
# Numbered logs

`log-fns.c`.  `log_create_next` looks through a directory for the files whose
names start with a prefix and opens the file with the next number.  The numbers
are `int`s; a call that meets a number that is none, or has to go beyond the
greatest, is left out, although the code goes on with a number that it did not mean.
-/

namespace Cs140e.Libunix.LogFns

open Library

abbrev Name := List UInt8

def intMax : Int := 2147483647

/-! ## `log_create_next` -/

def isdigit (c : UInt8) : Bool := 48 ≤ c && c ≤ 57

def numberAt (text : List UInt8) : Nat := Decimal.value (text.takeWhile isdigit)

/-- A number with or without a sign. -/
def signed : List UInt8 → Int
  | [] => 0
  | c :: rest =>
      if c = 43 then numberAt rest
      else if c = 45 then -numberAt rest
      else numberAt (c :: rest)

/-- `atoi` of the C library.  `none`: the value is no `int`, which C leaves undefined. -/
def atoi (text : List UInt8) : Option Int :=
  let value := signed (text.dropWhile isspace)
  if -intMax - 1 ≤ value ∧ value ≤ intMax then some value else none

/-- Whether an entry is selected, and `max_test_n` after it. -/
def filter (logPrefix name : Name) (maxTestN : Int) : Option (Bool × Int) :=
  if logPrefix.isPrefixOf name then
    (atoi (name.drop logPrefix.length)).map fun testN =>
      (true, if maxTestN < testN then testN else maxTestN)
  else some (false, maxTestN)

/-- The number of the entries selected, and `max_test_n`. -/
def scandir (logPrefix : Name) : List Name → Int → Option (Nat × Int)
  | [], maxTestN => some (0, maxTestN)
  | name :: names, maxTestN =>
      match filter logPrefix name maxTestN with
      | none => none
      | some (selected, maxTestN) =>
          (scandir logPrefix names maxTestN).map fun (n, maxTestN) =>
            (if selected then n + 1 else n, maxTestN)

/-- The entries of an empty directory. -/
def dots : List Name := [[46], [46, 46]]

/-- `"%s%d.txt"`, for the number of a test. -/
def logName (logPrefix : Name) (testN : Nat) : Name :=
  logPrefix ++ (Decimal.digits testN ++ asciiBytes ".txt")

/-- The name of the file opened and the files of the directory then.  `open` creates what is
missing. -/
def openLog (logPrefix : Name) (names : List Name) (maxTestN : Int) : Name × List Name :=
  let name := logName logPrefix maxTestN.toNat
  (name, if name ∈ names then names else name :: names)

/-- A directory is missing or has files.  `none`: a panic, or the number that is found or that
comes next is no `int`.  With `log-file-2147483647.txt` in the directory the code adds 1 to the
greatest `int`. -/
def logCreateNext (logPrefix : Name) (dir : Option (List Name)) : Option (Name × List Name) :=
  match dir with
  | none =>
      match scandir logPrefix dots 0 with
      | none => none
      | some (n, maxTestN) => if n = 0 then some (openLog logPrefix [] maxTestN) else none
  | some names =>
      match scandir logPrefix (dots ++ names) 0 with
      | none => none
      | some (n, maxTestN) =>
          if n = 0 then some (openLog logPrefix names maxTestN)
          else if maxTestN < intMax then some (openLog logPrefix names (maxTestN + 1))
          else none

/-! ## Names -/

theorem isdigit_of_mem {n : Nat} {c : UInt8} (mem : c ∈ Decimal.digits n) : isdigit c = true := by
  obtain ⟨low, high⟩ := Decimal.isDigit_of_mem c mem
  simp only [isdigit, Bool.and_eq_true, decide_eq_true_eq, UInt8.le_iff_toNat_le]
  exact ⟨low, high⟩

theorem takeWhile_digits (n : Nat) :
    (Decimal.digits n ++ asciiBytes ".txt").takeWhile isdigit = Decimal.digits n := by
  rw [List.takeWhile_append_of_pos fun c mem => isdigit_of_mem mem]
  exact List.append_nil _

/-- The number of a log is read back. -/
theorem atoi_digits (n : Nat) :
    atoi (Decimal.digits n ++ asciiBytes ".txt") =
      if (n : Int) ≤ intMax then some (n : Int) else none := by
  have number := takeWhile_digits n
  have nonneg : -intMax - 1 ≤ (n : Int) := by
    unfold intMax
    omega
  cases spelled : Decimal.digits n with
  | nil => exact absurd spelled (Decimal.digits_ne_nil n)
  | cons c rest =>
      have digit : isdigit c = true := by
        apply isdigit_of_mem (n := n)
        rw [spelled]
        exact List.mem_cons_self
      have range : 48 ≤ c.toNat ∧ c.toNat ≤ 57 := by
        simpa [isdigit, UInt8.le_iff_toNat_le] using digit
      have notSpace : isspace c = false := by
        simp only [isspace, Bool.or_eq_false_iff, Bool.and_eq_false_iff, beq_eq_false_iff_ne,
          decide_eq_false_iff_not, UInt8.le_iff_toNat_le, ne_eq, ← UInt8.toNat_inj]
        exact ⟨fun same => absurd range.1 (by rw [same]; decide), .inr fun le =>
          absurd (Nat.le_trans range.1 le) (by decide)⟩
      have notPlus : c ≠ 43 := by
        rintro rfl
        exact absurd range.1 (by decide)
      have notMinus : c ≠ 45 := by
        rintro rfl
        exact absurd range.1 (by decide)
      rw [spelled] at number
      have kept : (c :: rest ++ asciiBytes ".txt").dropWhile isspace =
          c :: (rest ++ asciiBytes ".txt") := by
        rw [List.cons_append, List.dropWhile_cons, notSpace]
        rfl
      have value : numberAt (c :: (rest ++ asciiBytes ".txt")) = n := by
        rw [numberAt]
        exact (congrArg Decimal.value (number.trans spelled.symm)).trans (Decimal.value_digits n)
      unfold atoi
      rw [kept, signed, if_neg notPlus, if_neg notMinus, value]
      simp only [nonneg, true_and]

/-- What a scan has seen: every selected entry has a number, which is not above the
greatest, and is counted. -/
structure Seen (logPrefix : Name) (names : List Name) (start : Int) (n : Nat)
    (maxTestN : Int) : Prop where
  grows : start ≤ maxTestN
  bounds : ∀ name ∈ names, logPrefix.isPrefixOf name = true →
    0 < n ∧ ∃ testN, atoi (name.drop logPrefix.length) = some testN ∧ testN ≤ maxTestN

theorem filter_selected {logPrefix name : Name} {start maxTestN : Int} {selected : Bool}
    (filtered : filter logPrefix name start = some (selected, maxTestN)) :
    start ≤ maxTestN ∧ (logPrefix.isPrefixOf name = true →
      selected = true ∧
        ∃ testN, atoi (name.drop logPrefix.length) = some testN ∧ testN ≤ maxTestN) := by
  unfold filter at filtered
  by_cases matched : logPrefix.isPrefixOf name = true
  · rw [if_pos matched] at filtered
    obtain ⟨testN, read, result⟩ := Option.map_eq_some_iff.mp filtered
    cases result
    by_cases more : start < testN
    · rw [if_pos more]
      exact ⟨Int.le_of_lt more, fun _ => ⟨rfl, testN, read, Int.le_refl _⟩⟩
    · rw [if_neg more]
      exact ⟨Int.le_refl _, fun _ => ⟨rfl, testN, read, Int.le_of_not_gt more⟩⟩
  · rw [if_neg matched] at filtered
    cases filtered
    exact ⟨Int.le_refl _, fun yes => absurd yes matched⟩

theorem scandir_seen {logPrefix : Name} {names : List Name} {start maxTestN : Int} {n : Nat}
    (scanned : scandir logPrefix names start = some (n, maxTestN)) :
    Seen logPrefix names start n maxTestN := by
  induction names generalizing start n with
  | nil =>
      cases scanned
      exact ⟨Int.le_refl _, fun _ mem => nomatch mem⟩
  | cons name names ih =>
      rw [scandir] at scanned
      cases filtered : filter logPrefix name start with
      | none =>
          rw [filtered] at scanned
          cases scanned
      | some result =>
          obtain ⟨selected, next⟩ := result
          rw [filtered] at scanned
          obtain ⟨⟨count, last⟩, rest, result⟩ := Option.map_eq_some_iff.mp scanned
          cases result
          obtain ⟨first, chosen⟩ := filter_selected filtered
          obtain ⟨grows, bounds⟩ := ih rest
          refine ⟨Int.le_trans first grows, fun other mem matched => ?_⟩
          rcases List.mem_cons.mp mem with rfl | mem
          · obtain ⟨yes, testN, read, le⟩ := chosen matched
            rw [yes]
            exact ⟨Nat.succ_pos _, testN, read, Int.le_trans le grows⟩
          · obtain ⟨some, testN, read, le⟩ := bounds other mem matched
            refine ⟨?_, testN, read, le⟩
            split
            · exact Nat.succ_pos _
            · exact some

/-- A log that the scan saw has a number that is not above the greatest. -/
theorem Seen.log {logPrefix : Name} {names : List Name} {start maxTestN : Int} {n k : Nat}
    (seen : Seen logPrefix names start n maxTestN) (mem : logName logPrefix k ∈ names) :
    0 < n ∧ (k : Int) ≤ maxTestN := by
  have matched : logPrefix.isPrefixOf (logName logPrefix k) = true :=
    List.isPrefixOf_iff_prefix.mpr (List.prefix_append _ _)
  obtain ⟨some, testN, read, le⟩ := seen.bounds _ mem matched
  rw [logName, List.drop_left, atoi_digits] at read
  split at read
  · cases read
    exact ⟨some, le⟩
  · cases read

/-- A call opens the log whose number is above those of all logs in the directory. -/
theorem logCreateNext_eq {logPrefix : Name} {dir : Option (List Name)} {name : Name}
    {names : List Name} (called : logCreateNext logPrefix dir = some (name, names)) :
    ∃ k, name = logName logPrefix k ∧ names = name :: dir.getD [] ∧
      ∀ other, logName logPrefix other ∈ dir.getD [] → other < k := by
  have fresh (old : List Name) (k : Nat)
      (above : ∀ other, logName logPrefix other ∈ old → other < k) :
      logName logPrefix k ∉ old := fun mem => Nat.lt_irrefl k (above k mem)
  cases dir with
  | none =>
      rw [logCreateNext] at called
      split at called
      · cases called
      · split at called
        · cases called
          exact ⟨_, rfl, rfl, fun _ mem => nomatch mem⟩
        · cases called
  | some old =>
      rw [logCreateNext] at called
      cases scanned : scandir logPrefix (dots ++ old) 0 with
      | none =>
          rw [scanned] at called
          cases called
      | some result =>
          obtain ⟨n, maxTestN⟩ := result
          have seen := scandir_seen scanned
          rw [scanned] at called
          have opened : ∃ k, openLog logPrefix old (k : Nat) = (name, names) ∧
              ∀ other, logName logPrefix other ∈ old → other < k := by
            dsimp only at called
            by_cases none : n = 0
            · rw [if_pos none] at called
              refine ⟨maxTestN.toNat, ?_, fun other mem => ?_⟩
              · rw [Int.toNat_of_nonneg seen.grows]
                exact Option.some.inj called
              · have counted := (seen.log (List.mem_append_right dots mem)).1
                omega
            · rw [if_neg none] at called
              split at called
              · refine ⟨(maxTestN + 1).toNat, ?_, fun other mem => ?_⟩
                · have nonneg := seen.grows
                  rw [Int.toNat_of_nonneg (by omega)]
                  exact Option.some.inj called
                · have le := (seen.log (List.mem_append_right dots mem)).2
                  omega
              · cases called
          obtain ⟨k, opened, above⟩ := opened
          unfold openLog at opened
          rw [Int.toNat_natCast] at opened
          simp only [fresh old k above, if_false] at opened
          cases opened
          exact ⟨k, rfl, rfl, above⟩

/-! ## Sessions -/

/-- The directory, if there is one, and the logs opened so far. -/
structure Session where
  dir : Option (List Name)
  logs : List Name

/-- Other programs may create and remove files between the calls, but not remove the logs
opened. -/
inductive Step (logPrefix : Name) : Session → Session → Prop
  | others {s : Session} (names : List Name) (keeps : ∀ log ∈ s.logs, log ∈ names) :
      Step logPrefix s { s with dir := some names }
  | log {s : Session} {name : Name} {names : List Name}
      (called : logCreateNext logPrefix s.dir = some (name, names)) :
      Step logPrefix s { dir := some names, logs := s.logs ++ [name] }

/-- The logs are there, and their numbers grow in the order of the calls. -/
structure Ordered (logPrefix : Name) (s : Session) (numbers : List Nat) : Prop where
  logs : s.logs = numbers.map (logName logPrefix)
  grows : numbers.Pairwise (· < ·)
  there : ∀ log ∈ s.logs, log ∈ s.dir.getD []

theorem Ordered.step {logPrefix : Name} {s t : Session} {numbers : List Nat}
    (ordered : Ordered logPrefix s numbers) (step : Step logPrefix s t) :
    ∃ more, Ordered logPrefix t (numbers ++ more) := by
  obtain ⟨logs, grows, there⟩ := ordered
  cases step with
  | others names keeps =>
      refine ⟨[], ?_⟩
      rw [List.append_nil]
      exact ⟨logs, grows, keeps⟩
  | log called =>
      obtain ⟨k, rfl, rfl, above⟩ := logCreateNext_eq called
      refine ⟨[k], ?_, ?_, ?_⟩
      · rw [List.map_append, logs]
        rfl
      · refine List.pairwise_append.mpr ⟨grows, List.pairwise_singleton _ k, ?_⟩
        intro other mem last single
        rw [List.mem_singleton.mp single]
        apply above
        apply there
        rw [logs]
        exact List.mem_map_of_mem mem
      · intro log mem
        rcases List.mem_append.mp mem with old | new
        · exact List.mem_cons_of_mem _ (there log old)
        · rw [List.mem_singleton.mp new]
          exact List.mem_cons_self

theorem Ordered.run {logPrefix : Name} {s t : Session} {numbers : List Nat}
    (ordered : Ordered logPrefix s numbers)
    (run : Relation.ReflTransGen (Step logPrefix) s t) :
    ∃ more, Ordered logPrefix t (numbers ++ more) := by
  induction run with
  | refl => exact ⟨[], by rwa [List.append_nil]⟩
  | tail _ step ih =>
      obtain ⟨more, before⟩ := ih
      obtain ⟨last, after⟩ := before.step step
      exact ⟨more ++ last, by rwa [← List.append_assoc]⟩

end Cs140e.Libunix.LogFns
