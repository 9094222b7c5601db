import Cs140e.Fat32.DirectoryFormat

/-!
# Printing a directory

The loop over a directory with `fat32_lfn_print` gives back the records that the
directory was made of.
-/

namespace Cs140e.Fat32

open Cs140e.Library Cs140e.Library.Buffer

variable {σ : Type}

/-! ## Attributes -/

/-- A property of all attributes, checked one by one. -/
theorem attr_forall {P : UInt8 → Prop} (each : ∀ n < 256, P (UInt8.ofNat n)) (attr : UInt8) :
    P attr := by
  have checked := each attr.toNat attr.toNat_lt
  rwa [UInt8.ofNat_toNat] at checked

/-- Apart from directories and archives, only labels and system files have a text, with or
without the bits of a hidden or a read-only file. -/
theorem attrStr_isSome {attr : UInt8} (notLong : attr ≠ FAT32_LONG_FILE_NAME)
    (notDir : ¬ isAttr attr FAT32_DIR = true) (notArchive : ¬ isAttr attr FAT32_ARCHIVE = true) :
    (fat32DirAttrStr attr).isSome = true ↔ Described attr := by
  have bits : (fat32DirAttrStr attr).isSome = true ↔
      attr &&& 0xfc = 0x04 ∨ attr &&& 0xfc = FAT32_VOLUME_LABEL :=
    attr_forall (P := fun attr => attr ≠ FAT32_LONG_FILE_NAME →
        ¬ isAttr attr FAT32_DIR = true → ¬ isAttr attr FAT32_ARCHIVE = true →
        ((fat32DirAttrStr attr).isSome = true ↔
          attr &&& 0xfc = 0x04 ∨ attr &&& 0xfc = FAT32_VOLUME_LABEL))
      (by decide +kernel) attr notLong notDir notArchive
  rw [bits, Described]
  simp only [notDir, notArchive, Bool.false_eq_true, false_or]

theorem Nameable.described {attr : UInt8} (nameable : Nameable attr) : Described attr :=
  nameable.elim .inl fun archive => .inr (.inl archive)

/-! ## Files -/

namespace File

variable (f : File)

theorem entry_used : fat32DirentFree f.entry.dir = false := by
  have filename := f.entry_filename
  have attr := f.entry_attr
  have size := f.size
  have used := f.used
  unfold fat32DirentFree
  rw [filename, attr]
  cases raw : f.raw with
  | nil => rfl
  | cons c rest =>
      rw [raw] at used
      obtain ⟨notZero, notDeleted⟩ := used c rfl
      simp [f.notLong, notZero, notDeleted]

theorem entry_not_long : isLong f.entry = false := by
  rw [isLong, f.entry_attr]
  exact beq_eq_false_iff_ne.mpr f.notLong

theorem to8dot3String_raw (state : σ) :
    to8dot3String f.raw state =
      .ok (some (dotted (trimmed (f.raw.take 8)) (f.raw.drop 8))) state := by
  have ran := to8dot3_apply f.size f.named (s := List.replicate 14 (some 0)) List.length_replicate
  have noNul : 0 ∉ dotted (trimmed (f.raw.take 8)) (f.raw.drop 8) := by
    intro mem
    rcases List.mem_append.mp mem with front | behind
    · exact f.noNul (List.mem_of_mem_take ((List.rdropWhile_prefix _ _).subset front))
    · rcases List.mem_cons.mp behind with dot | suffix
      · exact absurd dot (by decide)
      · exact f.noNul (List.mem_of_mem_drop suffix)
  rw [to8dot3String, Prog.bind_of_ok (Prog.locally_of_ok ran state)]
  exact congrArg (fun name => EStateM.Result.ok name state) (stringAt_written noNul _)

theorem attrLines_print (described : Described f.attr) (lines : List Line) :
    Fat32.attrLines f.attr lines = .ok () (lines ++ f.attrLines) := by
  unfold Fat32.attrLines File.attrLines
  by_cases archive : isAttr f.attr FAT32_ARCHIVE = true
  · rw [if_pos archive, if_pos archive]
    rfl
  · rw [if_neg archive, if_neg archive]
    by_cases dir : isAttr f.attr FAT32_DIR = true
    · rw [dir, if_pos rfl, List.append_nil]
      rfl
    · obtain ⟨text, there⟩ := Option.isSome_iff_exists.mp
        ((attrStr_isSome f.notLong dir archive).mpr described)
      rw [if_neg dir, there, Bool.not_eq_true _ |>.mp dir]
      rfl

theorem print (described : Described f.attr) (lines : List Line) :
    fat32DirentPrintHelper f.entry lines = .ok () (lines ++ f.lines) := by
  have notLong : f.entry.dir.attr ≠ FAT32_LONG_FILE_NAME := f.entry_attr ▸ f.notLong
  rw [fat32DirentPrintHelper, f.entry_used, if_neg Bool.false_ne_true, if_neg notLong,
    f.entry_attr, f.entry_filename, Prog.bind_of_ok (f.attrLines_print described lines),
    Prog.bind_of_ok (f.to8dot3String_raw _), f.entry_fileNbytes, File.lines, ← List.append_assoc]
  rfl

end File

/-! ## Long names -/

theorem lfnLoop_passes {cksum : UInt8} {s : List Entry}
    (good : ∀ e ∈ s, lfnIsDeleted e.seqno = false ∧ e.cksum = cksum) (state : σ) :
    lfnLoop cksum s state = .ok () state := by
  induction s with
  | nil => rfl
  | cons e s ih =>
      obtain ⟨⟨used, same⟩, rest⟩ := List.forall_mem_cons.mp good
      have kept : (!lfnIsDeleted e.seqno) = true := by rw [used]; rfl
      rw [lfnLoop, Prog.bind_of_ok (Prog.assertThat_of _ state kept),
        Prog.bind_of_ok (Prog.assertThat_of _ state (beq_iff_eq.mpr same)), ih rest]

theorem longEntries_seqno {name : LongName} {cksum : UInt8} {i : Nat} {e : Entry}
    (there : (longEntries name cksum)[i]? = some e) :
    e.seqno = seqnoAt name.parts i := by
  rw [longEntries, List.getElem?_mapIdx] at there
  obtain ⟨part, -, rfl⟩ := Option.map_eq_some_iff.mp there
  rfl

/-- The numbers of one or two parts. -/
theorem longEntries_shape {name : LongName} (few : name.units.length ≤ 26) (cksum : UInt8) :
    (∃ e, longEntries name cksum = [e] ∧ e.seqno = 0x41) ∨
      ∃ e e', longEntries name cksum = [e, e'] ∧ e.seqno = 0x42 ∧ e'.seqno = 1 := by
  have positive := parts_pos name
  have length := length_longEntries name cksum
  have parts : name.parts = 1 ∨ name.parts = 2 := by
    unfold LongName.parts at positive ⊢
    omega
  rcases parts with one | two
  · rw [one] at length
    obtain ⟨e, only⟩ := List.length_eq_one_iff.mp length
    have first := longEntries_seqno (i := 0) (congrArg (fun s => s[0]?) only)
    rw [one] at first
    exact .inl ⟨e, only, first⟩
  · rw [two] at length
    obtain ⟨e, e', both⟩ := List.length_eq_two.mp length
    have first := longEntries_seqno (i := 0) (congrArg (fun s => s[0]?) both)
    have second := longEntries_seqno (i := 1) (congrArg (fun s => s[1]?) both)
    rw [two] at first second
    exact .inr ⟨e, e', both, first, second⟩

theorem longEntries_used {name : LongName} (few : name.units.length ≤ 26) (cksum : UInt8) :
    ∀ e ∈ longEntries name cksum, lfnIsDeleted e.seqno = false := by
  intro e mem
  rcases longEntries_shape few cksum with ⟨_, only, seqno⟩ | ⟨_, _, both, seqno, seqno'⟩
  · rw [only, List.mem_singleton] at mem
    rw [mem, seqno]
    rfl
  · rw [both, List.mem_pair] at mem
    rcases mem with first | second
    · rw [first, seqno]
      rfl
    · rw [second, seqno']
      rfl

theorem lfnPrint_of {s : List Entry} {first last : Entry} (few : s.length < 3)
    (starts : s.head? = some first) (ends : s.getLast? = some last)
    (isLast : lfnIsLast first.seqno = true) (isFirst : lfnIsFirst last.seqno = true)
    (cksum : UInt8) (state : σ) : lfnPrint s cksum state = lfnLoop cksum s state := by
  have positive : 0 < s.length := by
    cases s with
    | nil => exact absurd starts (by simp)
    | cons e s => exact Nat.succ_pos _
  have one : decide (1 ≤ s.length) = true := decide_eq_true positive
  have both : (decide (s.length > 0) && decide (s.length < 3)) = true := by
    rw [Bool.and_eq_true]
    exact ⟨decide_eq_true positive, decide_eq_true few⟩
  rw [lfnPrint, Prog.bind_of_ok (Prog.assertThat_of _ state one),
    Prog.bind_of_ok (Prog.assertThat_of _ state both)]
  cases loop : lfnLoop cksum s state with
  | ok value after =>
      simp only [Prog.bind_of_ok loop, starts, ends]
      rw [Prog.bind_of_ok (Prog.assertThat_of _ after isLast), Prog.assertThat_of _ after isFirst]
  | error stop after => rw [Prog.bind_of_error loop]

/-- The entries of a name pass the checks of `lfn_print`, up to the checksums. -/
theorem lfnPrint_eq {name : LongName} (few : name.units.length ≤ 26) (stored cksum : UInt8)
    (state : σ) : lfnPrint (longEntries name stored) cksum state =
      lfnLoop cksum (longEntries name stored) state := by
  rcases longEntries_shape few stored with ⟨e, only, seqno⟩ | ⟨e, e', both, seqno, seqno'⟩
  · have isLast : lfnIsLast e.seqno = true := by rw [seqno]; rfl
    have isFirst : lfnIsFirst e.seqno = true := by rw [seqno]; rfl
    rw [only]
    exact lfnPrint_of (by simp) rfl rfl isLast isFirst cksum state
  · have isLast : lfnIsLast e.seqno = true := by rw [seqno]; rfl
    have isFirst : lfnIsFirst e'.seqno = true := by rw [seqno']; rfl
    rw [both]
    exact lfnPrint_of (by simp) rfl rfl isLast isFirst cksum state

theorem takeWhile_longEntries (name : LongName) (cksum : UInt8) {e : Entry}
    (short : isLong e = false) (rest : List Entry) :
    (longEntries name cksum ++ e :: rest).takeWhile isLong = longEntries name cksum := by
  rw [List.takeWhile_append_of_pos (longEntries_long name cksum), List.takeWhile_cons_of_neg
    (by rw [short]; exact Bool.false_ne_true), List.append_nil]

theorem Nameable.short {e : Entry} (kind : Nameable e.dir.attr) : isLong e = false := by
  refine beq_eq_false_iff_ne.mpr fun long => ?_
  rw [Nameable, long] at kind
  exact absurd kind (by decide)

theorem longEntries_cons (name : LongName) (cksum : UInt8) :
    ∃ first s, longEntries name cksum = first :: s :=
  List.exists_cons_of_length_pos ((length_longEntries name cksum).symm ▸ parts_pos name)

/-- What `fat32_lfn_print` does with a long name in front of an entry. -/
theorem fat32LfnPrint_long (name : LongName) (cksum : UInt8) {e : Entry}
    (short : isLong e = false) (rest : List Entry) (lines : List Line) :
    fat32LfnPrint (longEntries name cksum ++ e :: rest) lines =
      (do
        Prog.assertThat (isAttr e.dir.attr FAT32_DIR || isAttr e.dir.attr FAT32_ARCHIVE)
          "is_attr(d[cnt].attr, FAT32_DIR) || is_attr(d[cnt].attr, FAT32_ARCHIVE)"
        lfnPrint (longEntries name cksum) (lfnChecksum e.dir.filename)
        let longName ← lfnName (longEntries name cksum)
        printLine (.longName longName)
        fat32DirentPrintHelper e
        pure (name.parts + 1) : Printing Nat) lines := by
  have split := takeWhile_longEntries name cksum short rest
  have whole := length_longEntries name cksum
  obtain ⟨first, s, entries⟩ := longEntries_cons name cksum
  have isLfn : first.dir.attr = FAT32_LONG_FILE_NAME :=
    beq_iff_eq.mp (longEntries_long name cksum first (entries ▸ List.mem_cons_self))
  rw [entries] at split whole
  rw [entries]
  rw [List.cons_append] at split ⊢
  rw [fat32LfnPrint, if_neg (not_not_intro isLfn), split, ← List.cons_append, List.drop_left' rfl]
  simp only [whole]

/-- A long name of one or two parts is printed unless an entry holds a wrong checksum. -/
theorem fat32LfnPrint_eq {name : LongName} (few : name.units.length ≤ 26) (cksum : UInt8)
    {e : Entry} (kind : Nameable e.dir.attr) (rest : List Entry) (lines : List Line) :
    fat32LfnPrint (longEntries name cksum ++ e :: rest) lines =
      (do
        lfnLoop (lfnChecksum e.dir.filename) (longEntries name cksum)
        printLine (.longName (some name.utf8))
        fat32DirentPrintHelper e
        pure (name.parts + 1) : Printing Nat) lines := by
  have kept : (isAttr e.dir.attr FAT32_DIR || isAttr e.dir.attr FAT32_ARCHIVE) = true := by
    rw [Bool.or_eq_true]
    exact kind
  have print := lfnPrint_eq few cksum (lfnChecksum e.dir.filename) lines
  have comesBack := lfnName_longEntries (σ := List Line) name cksum few (by decide)
  rw [fat32LfnPrint_long name cksum kind.short rest lines,
    Prog.bind_of_ok (Prog.assertThat_of _ lines kept), Prog.bind_congr print]
  refine congrFun (congrArg (bind _) (funext fun _ => funext fun lines => ?_)) lines
  rw [Prog.bind_of_ok (comesBack lines)]

theorem printDirs_free {e : Entry} (free : fat32DirentFree e.dir = true) (fuel i : Nat)
    (left : List Entry) (lines : List Line) :
    printDirs (fuel + 1) i (e :: left) lines = printDirs fuel (i + 1) left lines := by
  rw [printDirs, free, if_pos rfl]

theorem printDirs_used {fuel i cnt : Nat} {d : Entry} {left : List Entry}
    {lines after : List Line} (used : fat32DirentFree d.dir = false)
    (printed : fat32LfnPrint (d :: left) (lines ++ [.notFree i]) = .ok cnt after) :
    printDirs (fuel + 1) i (d :: left) lines =
      printDirs fuel (i + cnt) ((d :: left).drop cnt) after := by
  have line : printLine (.notFree i) lines = .ok ⟨⟩ (lines ++ [.notFree i]) := rfl
  rw [printDirs, used, if_neg Bool.false_ne_true, Prog.bind_of_ok line, Prog.bind_of_ok printed]

theorem printDirs_stopped {fuel i : Nat} {d : Entry} {left : List Entry} {stop : Stop}
    {lines after : List Line} (used : fat32DirentFree d.dir = false)
    (stopped : fat32LfnPrint (d :: left) (lines ++ [.notFree i]) = .error stop after) :
    printDirs (fuel + 1) i (d :: left) lines = .error stop after := by
  have line : printLine (.notFree i) lines = .ok ⟨⟩ (lines ++ [.notFree i]) := rfl
  rw [printDirs, used, if_neg Bool.false_ne_true, Prog.bind_of_ok line, Prog.bind_of_error stopped]

theorem free_of_long {e : Entry} (long : isLong e = true) :
    fat32DirentFree e.dir = lfnIsDeleted e.seqno := by
  have attr : e.dir.attr = FAT32_LONG_FILE_NAME := beq_iff_eq.mp long
  have size := e.size
  cases bytes : e.bytes with
  | nil =>
      rw [bytes] at size
      exact absurd size (by decide)
  | cons x rest =>
      have filename : e.dir.filename = x :: rest.take 10 := by
        simp only [Entry.dir, Entry.field, bytes]
        rfl
      have seqno : e.seqno = x := by
        rw [Entry.seqno, Entry.byte, bytes]
        rfl
      rw [fat32DirentFree, filename, seqno]
      exact if_pos attr

/-- The number of a first part, which is at most 20, is not that of a deleted entry. -/
theorem longEntries_first_used {name : LongName} {cksum : UInt8} {first : Entry} {s : List Entry}
    (entries : longEntries name cksum = first :: s) : fat32DirentFree first.dir = false := by
  have few : name.parts < 21 := by
    have short := name.short
    unfold LongName.parts
    omega
  have marked : ∀ n < 21, lfnIsDeleted (UInt8.ofNat n ||| 0x40) = false := by decide +kernel
  have seqno := longEntries_seqno (i := 0) (congrArg (fun s => s[0]?) entries)
  rw [free_of_long (longEntries_long name cksum first (entries ▸ List.mem_cons_self)), seqno]
  exact marked name.parts few

/-- One record is printed in one round. -/
theorem printDirs_record {r : Record} (printable : r.Printable) (fuel i : Nat)
    (rest : List Entry) (lines : List Line) :
    printDirs (fuel + 1) i (r.entries ++ rest) lines =
      printDirs fuel (i + r.entries.length) rest (lines ++ r.lines i) := by
  cases r with
  | free e free =>
      rw [Record.entries, Record.lines, List.append_nil, List.singleton_append]
      exact printDirs_free free fuel i rest lines
  | short f =>
      have printed : fat32LfnPrint (f.entry :: rest) (lines ++ [.notFree i]) =
          .ok 1 (lines ++ (.notFree i :: f.lines)) := by
        have notLong : f.entry.dir.attr ≠ FAT32_LONG_FILE_NAME := f.entry_attr ▸ f.notLong
        have print := f.print printable (lines ++ [.notFree i])
        rw [List.append_assoc] at print
        rw [fat32LfnPrint, if_pos notLong, Prog.bind_of_ok print]
        rfl
      exact printDirs_used f.entry_used printed
  | long name f =>
      obtain ⟨few, kind⟩ := printable
      have nameable : Nameable f.entry.dir.attr := f.entry_attr ▸ kind
      have passes : lfnLoop (lfnChecksum f.raw) (longEntries name (lfnChecksum f.raw))
          (lines ++ [.notFree i]) = .ok () (lines ++ [.notFree i]) := lfnLoop_passes (fun e mem =>
        ⟨longEntries_used few _ e mem, longEntries_cksum name _ e mem⟩) _
      have printed : fat32LfnPrint (longEntries name (lfnChecksum f.raw) ++ f.entry :: rest)
          (lines ++ [.notFree i]) = .ok (name.parts + 1)
            (lines ++ (.notFree i :: .longName (some name.utf8) :: f.lines)) := by
        rw [fat32LfnPrint_eq few _ nameable, f.entry_filename, Prog.bind_of_ok passes]
        have print :=
          f.print kind.described (lines ++ [.notFree i] ++ [.longName (some name.utf8)])
        have all : lines ++ [.notFree i] ++ [.longName (some name.utf8)] ++ f.lines =
            lines ++ (.notFree i :: .longName (some name.utf8) :: f.lines) := by
          rw [List.append_assoc, List.append_assoc]
          rfl
        rw [all] at print
        exact Prog.bind_of_ok print
      obtain ⟨first, s, entries⟩ := longEntries_cons name (lfnChecksum f.raw)
      have used := longEntries_first_used entries
      have whole : (longEntries name (lfnChecksum f.raw) ++ [f.entry]).length = name.parts + 1 := by
        rw [List.length_append, length_longEntries]
        rfl
      rw [Record.entries, Record.lines, whole, List.append_assoc, List.singleton_append, entries,
        List.cons_append]
      rw [entries, List.cons_append] at printed
      rw [printDirs_used used printed, ← List.cons_append, ← entries, ← List.singleton_append,
        ← List.append_assoc, List.drop_left' whole]

theorem stored_cons_append (r : Record) (records : List Record) (rest : List Entry) :
    stored (r :: records) ++ rest = r.entries ++ (stored records ++ rest) := by
  rw [stored, List.flatMap_cons, List.append_assoc]
  rfl

theorem printDirs_records {records : List Record} (printable : ∀ r ∈ records, r.Printable)
    (fuel i : Nat) (rest : List Entry) (lines : List Line) :
    printDirs (records.length + fuel) i (stored records ++ rest) lines =
      printDirs fuel (i + (stored records).length) rest (lines ++ rowLines i records) := by
  induction records generalizing i lines with
  | nil =>
      rw [rowLines, stored, List.flatMap_nil, List.nil_append, List.append_nil, List.length_nil,
        List.length_nil, Nat.zero_add, Nat.add_zero]
  | cons r records ih =>
      have round : (r :: records).length + fuel = (records.length + fuel) + 1 := by
        rw [List.length_cons]
        omega
      have later : ∀ other ∈ records, other.Printable := fun other mem =>
        printable other (List.mem_cons_of_mem _ mem)
      have index : i + (stored (r :: records)).length =
          i + r.entries.length + (stored records).length := by
        rw [stored, List.flatMap_cons, List.length_append, Nat.add_assoc]
        rfl
      rw [stored_cons_append, round, printDirs_record (printable r List.mem_cons_self), ih later,
        index, rowLines, List.append_assoc]

/-- A name of two parts. -/
def twoParts : LongName := .repeated 0x6587 plain_6587 14 (by decide) (by decide)

/-- `KERNEL~1.IMG` -/
def kernelFile : File where
  raw := [75, 69, 82, 78, 69, 76, 126, 49, 73, 77, 71]
  attr := FAT32_ARCHIVE
  stamps := List.replicate 8 0
  modified := List.replicate 4 0
  cluster := 0x00020005
  nbytes := 9000
  size := rfl
  sizeStamps := rfl
  sizeModified := rfl
  used := fun c mem => by
    rw [← Option.some.inj mem]
    decide
  noNul := by decide
  named := by
    rw [trimmed_of_not_mem (by decide)]
    exact List.cons_ne_nil _ _
  notLong := by decide

/-- A file with a short name and one with a long name. -/
def twoFiles : List Record :=
  [.short kernelFile, .long twoParts kernelFile]

theorem twoFiles_printable : ∀ r ∈ twoFiles, r.Printable := by
  intro r mem
  rcases List.mem_pair.mp mem with rfl | rfl
  · exact .inr (.inl rfl)
  · exact ⟨by decide, .inr rfl⟩

/-- One round of `lfn_checksum` without the new byte. -/
def turned (sum : UInt8) : UInt8 := ((sum &&& 1) <<< 7) + (sum >>> 1)

theorem turned_injective {sum sum' : UInt8} (same : turned sum = turned sum') : sum = sum' := by
  have back : ∀ n < 256, (turned (UInt8.ofNat n) <<< 1) ||| (turned (UInt8.ofNat n) >>> 7) =
      UInt8.ofNat n := by decide +kernel
  have round (sum : UInt8) : (turned sum <<< 1) ||| (turned sum >>> 7) = sum := by
    have bound := back sum.toNat sum.toNat_lt
    rwa [UInt8.ofNat_toNat] at bound
  rw [← round sum, same, round]

theorem turned_fold_injective {rest : List UInt8} {sum sum' : UInt8}
    (same : rest.foldl (fun sum c => turned sum + c) sum =
      rest.foldl (fun sum c => turned sum + c) sum') : sum = sum' := by
  induction rest generalizing sum sum' with
  | nil => exact same
  | cons c rest ih => exact turned_injective ((UInt8.add_left_inj c).mp (ih same))

/-- A single changed byte changes the checksum. -/
theorem lfnChecksum_single {front back : List UInt8} {c c' : UInt8}
    (size : (front ++ c :: back).length = 11) (other : c ≠ c') :
    lfnChecksum (front ++ c :: back) ≠ lfnChecksum (front ++ c' :: back) := by
  have size' : (front ++ c' :: back).length = 11 := by
    rw [← size, List.length_append, List.length_append, List.length_cons, List.length_cons]
  intro same
  rw [lfnChecksum, lfnChecksum, List.take_of_length_le (Nat.le_of_eq size),
    List.take_of_length_le (Nat.le_of_eq size'), List.foldl_append, List.foldl_append,
    List.foldl_cons, List.foldl_cons] at same
  exact other ((UInt8.add_right_inj _).mp (turned_fold_injective same))

/-- The walk stops at a long name whose checksum is not that of the entry behind it. -/
theorem printDirs_stops {records : List Record} (printable : ∀ r ∈ records, r.Printable)
    {name : LongName} (few : name.units.length ≤ 26) {cksum : UInt8} {e : Entry}
    (kind : Nameable e.dir.attr) (differs : cksum ≠ lfnChecksum e.dir.filename)
    (rest : List Entry) {fuel : Nat} (enough : records.length < fuel) (lines : List Line) :
    printDirs fuel 0 (stored records ++ (longEntries name cksum ++ e :: rest)) lines =
      .error (.panic "s[i].cksum == cksum")
        (lines ++ rowLines 0 records ++ [.notFree (stored records).length]) := by
  obtain ⟨more, rfl⟩ := Nat.exists_eq_add_of_lt enough
  rw [Nat.add_assoc, printDirs_records printable, Nat.zero_add]
  generalize lines ++ rowLines 0 records = lines
  obtain ⟨first, s, entries⟩ := longEntries_cons name cksum
  have mem : first ∈ longEntries name cksum := entries ▸ List.mem_cons_self
  have kept : (!lfnIsDeleted first.seqno) = true := by
    rw [longEntries_used few cksum first mem]
    rfl
  have wrong : (first.cksum == lfnChecksum e.dir.filename) = false := by
    rw [longEntries_cksum name cksum first mem]
    exact beq_eq_false_iff_ne.mpr differs
  have loop (lines : List Line) : lfnLoop (lfnChecksum e.dir.filename) (longEntries name cksum)
      lines = .error (.panic "s[i].cksum == cksum") lines := by
    rw [entries, lfnLoop, Prog.bind_of_ok (Prog.assertThat_of _ lines kept), wrong]
    rfl
  have printed := fat32LfnPrint_eq few cksum kind rest
    (lines ++ [.notFree (stored records).length])
  rw [Prog.bind_of_error (loop _), entries, List.cons_append] at printed
  rw [entries, List.cons_append]
  exact printDirs_stopped (longEntries_first_used entries) printed

/-- A short name that was changed in one byte is noticed by the walk. -/
theorem walk_notices_changed_name (records : List Record)
    (printable : ∀ r ∈ records, r.Printable) {name : LongName} (few : name.units.length ≤ 26)
    {f : File} {e : Entry} {front back : List UInt8} {c c' : UInt8}
    (raw : f.raw = front ++ c :: back) (changed : e.dir.filename = front ++ c' :: back)
    (other : c ≠ c') (kind : Nameable e.dir.attr) (rest : List Entry) {fuel : Nat}
    (enough : records.length < fuel) (lines : List Line) :
    printDirs fuel 0 (stored records ++ (longEntries name (lfnChecksum f.raw) ++ e :: rest)) lines =
      .error (.panic "s[i].cksum == cksum")
        (lines ++ rowLines 0 records ++ [.notFree (stored records).length]) := by
  have differs : lfnChecksum f.raw ≠ lfnChecksum e.dir.filename := by
    rw [raw, changed]
    exact lfnChecksum_single (raw ▸ f.size) other
  exact printDirs_stops printable few kind differs rest enough lines

/-- `KERNEL~2.IMG` behind the long name of `KERNEL~1.IMG`. -/
def changedFile : File :=
  { kernelFile with
    raw := [75, 69, 82, 78, 69, 76, 126, 50, 73, 77, 71]
    size := rfl
    used := fun c mem => by
      rw [← Option.some.inj mem]
      decide
    noNul := by decide
    named := by
      rw [trimmed_of_not_mem (by decide)]
      exact List.cons_ne_nil _ _ }

theorem walk_notices_changed_name_of_kernel :
    printDirs 3 0 (stored twoFiles ++ (longEntries twoParts (lfnChecksum kernelFile.raw) ++
        [changedFile.entry])) [] =
      .error (.panic "s[i].cksum == cksum") ([] ++ rowLines 0 twoFiles ++ [.notFree 4]) :=
  have raw : kernelFile.raw = [75, 69, 82, 78, 69, 76, 126] ++ 49 :: [73, 77, 71] := rfl
  have changed : changedFile.entry.dir.filename =
      [75, 69, 82, 78, 69, 76, 126] ++ 50 :: [73, 77, 71] := rfl
  walk_notices_changed_name twoFiles twoFiles_printable (by decide) raw changed (by decide)
    (.inr rfl) [] (by decide) []

end Cs140e.Fat32
