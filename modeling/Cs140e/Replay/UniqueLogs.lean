import Cs140e.Libpi.Crc
import Cs140e.Library.Keyed
import Cs140e.Libunix.ReadExact
import Cs140e.Replay.LogText

/-!
# The directory of unique logs

`emit_if_uniq` of `trace.c` keeps the log of an execution in a file that is named
by its checksum.  `trace.c` declares no `crc32`; it is taken to be the static one
of `simple-boot.h`, which has the table and the loop of `crc.c`.
-/

namespace Cs140e.Replay.UniqueLogs

open Library Libunix

abbrev Name := List UInt8

/-- What is in the files, by their names. -/
abbrev Files := Name → Option (List UInt8)

/-- The files, and what the system does in the next calls of `write`. -/
structure Disk where
  files : Files
  transfers : List Transfer

def crc32 (buf : List UInt8) (size : UInt32) : BitVec 32 :=
  Libpi.Crc.ourCrc32 (buf.take size.toNat)

/-- `"%s/log-file.%x.txt"` -/
def logFile (dir : Name) (crc : BitVec 32) : Name :=
  dir ++ (asciiBytes "/log-file." ++ (numeral 16 crc.toNat ++ asciiBytes ".txt"))

/-- Opened with `O_TRUNC`. -/
def createFile (name : Name) : Prog Disk Unit :=
  modify fun disk => { disk with files := Function.update disk.files name (some []) }

/-- Calls on the descriptor of an open file. -/
def onFile {α : Type} (name : Name) (calls : Prog Fd α) : Prog Disk α :=
  Prog.onPart (fun disk => ⟨[], (disk.files name).getD [], disk.transfers⟩)
    (fun fd disk => ⟨Function.update disk.files name (some fd.output), fd.transfers⟩) calls

/-- The directory is there or can be made, and a file in it can be created. -/
def emitIfUniq (dir : Name) (p : List UInt8) (nbytes : UInt32) : Prog Disk Unit := do
  let buf := logFile dir (crc32 p nbytes)
  if ((← get).files buf).isSome then pure ()
  else
    createFile buf
    let _ ← onFile buf (writeExact p nbytes)

/-- What `main` does with the log of an execution. -/
def emit (dir : Name) (log : List UInt8) : Prog Disk Unit :=
  emitIfUniq dir log (.ofNat log.length)

/-- The executions traced one after the other, each by a process that returns or is
stopped. -/
def emitAll (dir : Name) (logs : List (List UInt8)) (disk : Disk) : Disk :=
  logs.foldl (fun disk log => left (emit dir log disk)) disk

/-- No process is stopped: `write_exact` finds something to write and writes all of it. -/
def AllReturn (dir : Name) : List (List UInt8) → Disk → Prop
  | [], _ => True
  | log :: logs, disk => ∃ after, emit dir log disk = .ok () after ∧ AllReturn dir logs after

/-! ## Names -/

theorem logFile_injective (dir : Name) : Function.Injective (logFile dir) := by
  intro first second same
  have spelled := List.append_cancel_left (List.append_cancel_left same)
  have digits := List.append_cancel_right spelled
  exact BitVec.eq_of_toNat_eq (numeral_injective (by decide) (by decide) digits)

/-! ## One execution -/

/-- The checksum of a whole log. -/
def checksum (log : List UInt8) : BitVec 32 := Libpi.Crc.ourCrc32 log

theorem toNat_size {log : List UInt8} (fits : log.length < 2 ^ 32) :
    (UInt32.ofNat log.length).toNat = log.length := by
  rw [UInt32.toNat_ofNat', Nat.mod_eq_of_lt fits]

theorem crc32_whole {log : List UInt8} (fits : log.length < 2 ^ 32) :
    crc32 log (.ofNat log.length) = checksum log := by
  rw [crc32, toNat_size fits, List.take_length]
  rfl

section

variable {dir : Name} {log : List UInt8} {disk : Disk}

/-- An execution that was seen already. -/
theorem emit_seen (fits : log.length < 2 ^ 32)
    (seen : (disk.files (logFile dir (checksum log))).isSome) :
    emit dir log disk = .ok () disk := by
  rw [emit, emitIfUniq, crc32_whole fits, Prog.bind_of_ok (Prog.get_apply disk)]
  exact congrFun (if_pos seen) disk

/-- A new execution is left to the calls on its file. -/
theorem emit_new (fits : log.length < 2 ^ 32)
    (new : disk.files (logFile dir (checksum log)) = none) :
    emit dir log disk =
      (onFile (logFile dir (checksum log)) (writeExact log (.ofNat log.length)) >>= fun _ =>
        pure ()) { disk with
          files := Function.update disk.files (logFile dir (checksum log)) (some []) } := by
  have unseen : ¬ (disk.files (logFile dir (checksum log))).isSome := by
    rw [new]
    exact Bool.false_ne_true
  rw [emit, emitIfUniq, crc32_whole fits, Prog.bind_of_ok (Prog.get_apply disk)]
  refine (congrFun (if_neg unseen) disk).trans ?_
  exact Prog.bind_of_ok (Prog.modify_apply _ disk)

/-- The disk when the file of a log holds what its descriptor has written. -/
def Disk.stored (disk : Disk) (dir : Name) (log : List UInt8) (fd : Fd) : Disk :=
  ⟨Function.update disk.files (logFile dir (checksum log)) (some fd.output), fd.transfers⟩

theorem onFile_created {α : Type} (calls : Prog Fd α) :
    onFile (logFile dir (checksum log)) calls { disk with
        files := Function.update disk.files (logFile dir (checksum log)) (some []) } =
      Prog.onPart (fun disk => ⟨[], [], disk.transfers⟩) (fun fd disk => disk.stored dir log fd)
        calls disk := by
  rw [onFile, Prog.onPart, Prog.onPart]
  dsimp only
  rw [Function.update_self, Option.getD_some]
  simp only [Function.update_idem, Disk.stored]

theorem emit_new_ok (fits : log.length < 2 ^ 32)
    (new : disk.files (logFile dir (checksum log)) = none) {code : Int32} {fd : Fd}
    (wrote : writeExact log (.ofNat log.length) ⟨[], [], disk.transfers⟩ = .ok code fd) :
    emit dir log disk = .ok () (disk.stored dir log fd) := by
  rw [emit_new fits new]
  have ran : onFile (logFile dir (checksum log)) (writeExact log (.ofNat log.length)) { disk with
      files := Function.update disk.files (logFile dir (checksum log)) (some []) } =
        .ok code (disk.stored dir log fd) := by
    rw [onFile_created]
    exact Prog.onPart_of_ok wrote
  rw [Prog.bind_of_ok ran]
  rfl

theorem emit_new_error (fits : log.length < 2 ^ 32)
    (new : disk.files (logFile dir (checksum log)) = none) {stop : Stop} {fd : Fd}
    (stopped : writeExact log (.ofNat log.length) ⟨[], [], disk.transfers⟩ = .error stop fd) :
    emit dir log disk = .error stop (disk.stored dir log fd) := by
  rw [emit_new fits new]
  refine Prog.bind_of_error ?_
  rw [onFile_created]
  exact Prog.onPart_of_error stopped

/-- The process of a new execution returns if and only if its write moves the whole log.  A
part stays in the file else, and counts as the execution from then on. -/
theorem emit_new_moved (some : log ≠ []) (small : log.length < 2 ^ 31)
    (new : disk.files (logFile dir (checksum log)) = none) {count : Nat}
    {later : List Transfer} (next : disk.transfers = .moved count :: later)
    (asked : count ≤ log.length) :
    emit dir log disk =
      if count = log.length then .ok () (disk.stored dir log ⟨[], log.take count, later⟩)
      else .error (.panic "write_exact of %d bytes failed\n")
        (disk.stored dir log ⟨[], log.take count, later⟩) := by
  have fits : log.length < 2 ^ 32 := by omega
  have size := toNat_size fits
  have nonzero : UInt32.ofNat log.length ≠ 0 := by
    rw [Ne, ← UInt32.toNat_inj, size]
    exact fun zero => some (List.length_eq_zero_iff.mp zero)
  have opened : (⟨[], [], disk.transfers⟩ : Fd).transfers = .moved count :: later := next
  have wrote := writeExact_moved nonzero (by rw [size]; exact small) opened
    (by rw [size]; exact asked) asked
  rw [size] at wrote
  by_cases whole : count = log.length
  · rw [if_pos whole] at wrote ⊢
    exact emit_new_ok fits new wrote
  · rw [if_neg whole] at wrote ⊢
    exact emit_new_error fits new wrote

/-- Whether its process returns or is stopped, the file of a new execution holds a front part
of its log, and no other file changes. -/
theorem emit_new_left (fits : log.length < 2 ^ 32)
    (new : disk.files (logFile dir (checksum log)) = none) :
    ∃ part, part <+: log ∧ (left (emit dir log disk)).files =
      Function.update disk.files (logFile dir (checksum log)) (some part) := by
  obtain ⟨part, front, output⟩ := writeExact_left log (.ofNat log.length)
    ⟨[], [], disk.transfers⟩
  refine ⟨part, front, ?_⟩
  cases wrote : writeExact log (.ofNat log.length) ⟨[], [], disk.transfers⟩ with
  | ok code fd =>
      rw [wrote] at output
      rw [emit_new_ok fits new wrote]
      exact congrArg (fun text => Function.update disk.files _ (some text)) output
  | error stop fd =>
      rw [wrote] at output
      rw [emit_new_error fits new wrote]
      exact congrArg (fun text => Function.update disk.files _ (some text)) output

/-- A process that returns has written the whole log. -/
theorem emit_new_returned (fits : log.length < 2 ^ 32)
    (new : disk.files (logFile dir (checksum log)) = none) {after : Disk}
    (returned : emit dir log disk = .ok () after) :
    after.files = Function.update disk.files (logFile dir (checksum log)) (some log) := by
  cases wrote : writeExact log (.ofNat log.length) ⟨[], [], disk.transfers⟩ with
  | ok code fd =>
      have output := writeExact_returned wrote
      rw [toNat_size fits, List.take_length] at output
      rw [emit_new_ok fits new wrote] at returned
      cases returned
      exact congrArg (fun text => Function.update disk.files _ (some text)) output
  | error stop fd =>
      rw [emit_new_error fits new wrote] at returned
      cases returned

/-- No file is changed or lost, and the execution has a file afterwards. -/
theorem emit_grows (fits : log.length < 2 ^ 32) :
    (∀ name content, disk.files name = some content →
      (left (emit dir log disk)).files name = some content) ∧
    ((left (emit dir log disk)).files (logFile dir (checksum log))).isSome := by
  cases old : disk.files (logFile dir (checksum log)) with
  | some content =>
      have seen : (disk.files (logFile dir (checksum log))).isSome := by rw [old]; rfl
      rw [emit_seen fits seen]
      exact ⟨fun _ _ there => there, seen⟩
  | none =>
      obtain ⟨part, -, files⟩ := emit_new_left fits old
      rw [files, Function.update_self]
      refine ⟨fun name content there => ?_, rfl⟩
      have other : name ≠ logFile dir (checksum log) := by
        rintro rfl
        rw [old] at there
        cases there
      rw [Function.update_of_ne other, there]

/-- Only the file of the execution is new. -/
theorem emit_front (fits : log.length < 2 ^ 32) {crc : BitVec 32} {content : List UInt8}
    (new : disk.files (logFile dir crc) = none)
    (there : (left (emit dir log disk)).files (logFile dir crc) = some content) :
    checksum log = crc ∧ content <+: log := by
  cases old : disk.files (logFile dir (checksum log)) with
  | some part =>
      have seen : (disk.files (logFile dir (checksum log))).isSome := by rw [old]; rfl
      rw [emit_seen fits seen] at there
      cases new.symm.trans there
  | none =>
      obtain ⟨part, front, files⟩ := emit_new_left fits old
      rw [files] at there
      by_cases same : crc = checksum log
      · subst same
        rw [Function.update_self] at there
        cases there
        exact ⟨rfl, front⟩
      · rw [Function.update_of_ne fun named => same (logFile_injective dir named), new] at there
        cases there

/-- What a process that returned has done to the files. -/
theorem emit_returned (fits : log.length < 2 ^ 32) {after : Disk}
    (returned : emit dir log disk = .ok () after) :
    after.files = Keyed.keep (fun log => logFile dir (checksum log)) log disk.files := by
  unfold Keyed.keep
  split
  · rename_i seen
    rw [emit_seen fits seen] at returned
    cases returned
    rfl
  · rename_i new
    exact emit_new_returned fits (Option.not_isSome_iff_eq_none.mp new) returned

end

/-! ## All executions -/

section

variable {dir : Name} {logs : List (List UInt8)} {disk : Disk}

theorem emitAll_grows (fits : ∀ log ∈ logs, log.length < 2 ^ 32) {name : Name}
    {content : List UInt8} (there : disk.files name = some content) :
    (emitAll dir logs disk).files name = some content := by
  induction logs generalizing disk with
  | nil => exact there
  | cons log logs ih =>
      have first : (left (emit dir log disk)).files name = some content :=
        (emit_grows (fits log List.mem_cons_self)).1 name content there
      exact ih (fun other mem => fits other (List.mem_cons_of_mem _ mem)) first

theorem emitAll_isSome (fits : ∀ log ∈ logs, log.length < 2 ^ 32) {log : List UInt8}
    (mem : log ∈ logs) :
    ((emitAll dir logs disk).files (logFile dir (checksum log))).isSome := by
  induction logs generalizing disk with
  | nil => cases mem
  | cons first logs ih =>
      have later : ∀ other ∈ logs, other.length < 2 ^ 32 := fun other mem =>
        fits other (List.mem_cons_of_mem _ mem)
      rcases List.mem_cons.mp mem with rfl | mem
      · have some : ((left (emit dir log disk)).files (logFile dir (checksum log))).isSome :=
          (emit_grows (fits log List.mem_cons_self)).2
        obtain ⟨content, there⟩ := Option.isSome_iff_exists.mp some
        exact Option.isSome_iff_exists.mpr ⟨content, emitAll_grows later there⟩
      · exact ih later mem

/-- A log file that was not there before holds a front part of a log with its checksum. -/
theorem emitAll_front (fits : ∀ log ∈ logs, log.length < 2 ^ 32) {crc : BitVec 32}
    {content : List UInt8} (new : disk.files (logFile dir crc) = none)
    (there : (emitAll dir logs disk).files (logFile dir crc) = some content) :
    ∃ log ∈ logs, checksum log = crc ∧ content <+: log := by
  induction logs generalizing disk with
  | nil =>
      rw [emitAll, List.foldl_nil, new] at there
      cases there
  | cons log logs ih =>
      have later : ∀ other ∈ logs, other.length < 2 ^ 32 := fun other mem =>
        fits other (List.mem_cons_of_mem _ mem)
      cases first : (left (emit dir log disk)).files (logFile dir crc) with
      | none =>
          obtain ⟨other, mem, found⟩ := ih later first there
          exact ⟨other, List.mem_cons_of_mem _ mem, found⟩
      | some part =>
          have kept : (emitAll dir (log :: logs) disk).files (logFile dir crc) = some part :=
            emitAll_grows later first
          have same : content = part := Option.some.inj (there.symm.trans kept)
          subst same
          obtain ⟨named, front⟩ := emit_front (fits log List.mem_cons_self) new first
          exact ⟨log, List.mem_cons_self, named, front⟩

theorem emitAll_returned (fits : ∀ log ∈ logs, log.length < 2 ^ 32)
    (returns : AllReturn dir logs disk) :
    (emitAll dir logs disk).files =
      Keyed.keepAll (fun log => logFile dir (checksum log)) logs disk.files := by
  induction logs generalizing disk with
  | nil => rfl
  | cons log logs ih =>
      obtain ⟨after, returned, rest⟩ := returns
      have first := emit_returned (fits log List.mem_cons_self) returned
      have left_eq : emitAll dir (log :: logs) disk = emitAll dir logs after := by
        rw [emitAll, List.foldl_cons, returned]
        rfl
      rw [left_eq, ih (fun other mem => fits other (List.mem_cons_of_mem _ mem)) rest, first]
      rfl

end

/-- Every log file holds a log with the checksum in its name. -/
def WellKept (dir : Name) (files : Files) : Prop :=
  ∀ crc content, files (logFile dir crc) = some content → checksum content = crc

theorem WellKept.keepAll {dir : Name} {files : Files} (wellKept : WellKept dir files)
    (logs : List (List UInt8)) :
    WellKept dir (Keyed.keepAll (fun log => logFile dir (checksum log)) logs files) := by
  intro crc content there
  rw [Keyed.keepAll_apply, Option.or_eq_some_iff] at there
  rcases there with old | ⟨-, found⟩
  · exact wellKept crc content old
  · have named := List.find?_some found
    exact logFile_injective dir (of_decide_eq_true named)

/-! ## Executions that differ in one byte -/

/-- The logs of two executions that differ at most in the value or in the sender of one
byte. -/
def Variation (p q : List UInt8) : Prop :=
  ∃ front first second back, p = logText (front ++ first :: back) ∧
    q = logText (front ++ second :: back) ∧
    (first.sender = second.sender ∨ first.v = second.v)

theorem messageBits_append (front back : List UInt8) :
    Libpi.Crc.messageBits (front ++ back) =
      Libpi.Crc.messageBits front ++ Libpi.Crc.messageBits back :=
  List.flatMap_append

theorem logText_split (front : List LogEnt) (ent : LogEnt) (back : List LogEnt) :
    logText (front ++ ent :: back) = logText front ++ (ent.line ++ logText back) := by
  rw [logText, List.flatMap_append, List.flatMap_cons]
  rfl

/-- What differs are the two digits, or the sender: no more than 32 bits in a row. -/
theorem Variation.eq_of_checksum {p q : List UInt8} (variation : Variation p q)
    (same : checksum p = checksum q) : p = q := by
  obtain ⟨front, first, second, back, rfl, rfl, near⟩ := variation
  have split (before u after : List UInt8) :
      Libpi.Crc.messageBits (before ++ (u ++ after)) =
        Libpi.Crc.messageBits before ++
          (Libpi.Crc.messageBits u ++ Libpi.Crc.messageBits after) := by
    rw [messageBits_append, messageBits_append]
  rcases near with sender | value
  · have text (ent : LogEnt) : logText (front ++ ent :: back) =
        (logText front ++ [ent.sender, 44, 48, 120]) ++
          ([digitByte (ent.v.toNat / 16), digitByte (ent.v.toNat % 16)] ++
            (10 :: logText back)) := by
      rw [logText_split, List.append_assoc]
      rfl
    have left := congrArg Libpi.Crc.messageBits (text first)
    have right := congrArg Libpi.Crc.messageBits (text second)
    rw [split] at left right
    rw [← sender] at right
    exact Libpi.Crc.burst_eq left right rfl (show 16 ≤ 32 by decide) same
  · have text (ent : LogEnt) : logText (front ++ ent :: back) =
        logText front ++ ([ent.sender] ++
          ([44, 48, 120, digitByte (ent.v.toNat / 16), digitByte (ent.v.toNat % 16), 10] ++
            logText back)) := by
      rw [logText_split]
      rfl
    have left := congrArg Libpi.Crc.messageBits (text first)
    have right := congrArg Libpi.Crc.messageBits (text second)
    rw [split] at left right
    rw [← value] at right
    exact Libpi.Crc.burst_eq left right rfl (show 8 ≤ 32 by decide) same

/-- However many executions are traced, no file is changed or lost, a new log file holds a
front part of a log with the checksum in its name, and tracing an execution again changes
nothing.  If no process is stopped, the log files hold whole logs, the first with each checksum,
and the one that stands for an execution never holds one that differs from it in one byte. -/
theorem emit_if_uniq_loses_no_variation (dir : Name) (logs : List (List UInt8)) (disk : Disk)
    (fits : ∀ log ∈ logs, log.length < 2 ^ 32) (wellKept : WellKept dir disk.files) :
    let after := emitAll dir logs disk
    (∀ name content, disk.files name = some content → after.files name = some content) ∧
      (∀ crc content, disk.files (logFile dir crc) = none →
        after.files (logFile dir crc) = some content →
          ∃ log ∈ logs, checksum log = crc ∧ content <+: log) ∧
      (∀ log ∈ logs, emit dir log after = .ok () after) ∧
      (AllReturn dir logs disk →
        WellKept dir after.files ∧
          (∀ crc, disk.files (logFile dir crc) = none →
            after.files (logFile dir crc) = logs.find? fun log => checksum log = crc) ∧
          ∀ log ∈ logs, ∃ other, after.files (logFile dir (checksum log)) = some other ∧
            (Variation log other → log = other)) := by
  intro after
  refine ⟨fun name content there => emitAll_grows fits there,
    fun crc content new there => emitAll_front fits new there,
    fun log mem => emit_seen (fits log mem) (emitAll_isSome fits mem), fun returns => ?_⟩
  have files := emitAll_returned fits returns
  have kept : WellKept dir after.files := by
    rw [files]
    exact wellKept.keepAll logs
  refine ⟨kept, fun crc missing => ?_, fun log mem => ?_⟩
  · rw [files, Keyed.keepAll_apply, missing, Option.none_or]
    simp only [(logFile_injective dir).eq_iff]
  · have some : (after.files (logFile dir (checksum log))).isSome := emitAll_isSome fits mem
    obtain ⟨other, there⟩ := Option.isSome_iff_exists.mp some
    exact ⟨other, there, fun variation => variation.eq_of_checksum (kept _ _ there).symm⟩

theorem emit_if_uniq_loses_no_variation_two :
    let dir := asciiBytes "./log-files"
    let first := logText [⟨piOutput, 1⟩]
    let second := logText [⟨piOutput, 2⟩]
    let after := emitAll dir [first, second] ⟨fun _ => none, [.moved 7, .moved 7]⟩
    emit dir first after = .ok () after ∧
      after.files (logFile dir (checksum second)) = some second := by
  intro dir first second after
  have fits : ∀ log ∈ [first, second], log.length < 2 ^ 32 := by decide +kernel
  have others : checksum second ≠ checksum first := by decide +kernel
  obtain ⟨-, -, again, whole⟩ := emit_if_uniq_loses_no_variation dir [first, second]
    ⟨fun _ => none, [.moved 7, .moved 7]⟩ fits fun _ _ there => nomatch there
  have one : emit dir first ⟨fun _ => none, [.moved 7, .moved 7]⟩ = _ :=
    emit_new_moved (by decide) (by decide) rfl rfl (by decide)
  have two : emit dir second (Disk.stored ⟨fun _ => none, [.moved 7, .moved 7]⟩ dir first
      ⟨[], first.take 7, [.moved 7]⟩) = _ :=
    emit_new_moved (by decide) (by decide)
      (Function.update_of_ne (fun same => others (logFile_injective dir same)) _ _) rfl (by decide)
  have returns : AllReturn dir [first, second] ⟨fun _ => none, [.moved 7, .moved 7]⟩ :=
    ⟨_, one.trans (if_pos rfl), _, two.trans (if_pos rfl), trivial⟩
  refine ⟨again first List.mem_cons_self, ?_⟩
  have found := (whole returns).2.1 (checksum second) rfl
  rw [List.find?_cons_of_neg (by simpa using Ne.symm others),
    List.find?_cons_of_pos (by simp)] at found
  exact found

end Cs140e.Replay.UniqueLogs
