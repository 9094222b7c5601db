import Cs140e.Fat32.DirectoryPrint

/-!
# Looking up a file

`dirent_fat32_lookup` on the stored form of a directory finds the first file with
the name, and nothing but a file.
-/

namespace Cs140e.Fat32

open Cs140e.Library Cs140e.Library.Buffer

variable {σ : Type}

/-! ## Entries -/

/-- The test of `fat32_dir_lookup`. -/
def isNamed (name : List UInt8) (d : Entry) : Bool :=
  !(fat32DirentFree d.dir || isLong d) && memcmpEq name d.dir.filename 11

theorem dirLookup_cons (name : List UInt8) (d : Entry) (dirs : List Entry) (i : Nat) :
    dirLookup name (d :: dirs) i =
      if isNamed name d then (i : Int) else dirLookup name dirs (i + 1) := by
  rw [dirLookup, isNamed]
  cases fat32DirentFree d.dir || isLong d with
  | true => rfl
  | false => rfl

theorem dirLookup_of_none {name : List UInt8} {dirs : List Entry}
    (none : dirs.find? (isNamed name) = none) (i : Nat) : dirLookup name dirs i = -1 := by
  induction dirs generalizing i with
  | nil => rfl
  | cons d dirs ih =>
      rw [List.find?_cons] at none
      cases named : isNamed name d with
      | true =>
          rw [named] at none
          exact nomatch none
      | false =>
          rw [named] at none
          rw [dirLookup_cons, named]
          exact ih none (i + 1)

theorem dirLookup_of_some {name : List UInt8} {dirs : List Entry} {d : Entry}
    (found : dirs.find? (isNamed name) = some d) (i : Nat) :
    ∃ k, dirLookup name dirs i = (i + k : Nat) ∧ dirs[k]? = some d := by
  induction dirs generalizing i with
  | nil => exact nomatch found
  | cons first dirs ih =>
      rw [List.find?_cons] at found
      rw [dirLookup_cons]
      cases named : isNamed name first with
      | true =>
          rw [named] at found
          exact ⟨0, rfl, found⟩
      | false =>
          rw [named] at found
          obtain ⟨k, index, there⟩ := ih found (i + 1)
          exact ⟨k + 1, by rw [if_neg Bool.false_ne_true, index]; congr 1; omega, there⟩

/-! ## Records -/

namespace File

variable (f : File)

/-- What is known about a file after `fat32_dirent_convert`. -/
def dirent : Dirent where
  name := some (dotted (trimmed (f.raw.take 8)) (f.raw.drop 8))
  rawName := f.raw
  clusterId := f.cluster
  isDirP := f.attr == FAT32_DIR
  nbytes := f.nbytes

theorem convert (state : σ) : fat32DirentConvert f.entry state = .ok f.dirent state := by
  rw [fat32DirentConvert, f.entry_filename, Prog.bind_of_ok (f.to8dot3String_raw state),
    f.entry_clusterId, f.entry_attr, f.entry_fileNbytes]
  rfl

theorem isNamed_entry {name : List UInt8} (size : name.length = 11) :
    isNamed name f.entry = (f.raw == name) := by
  rw [isNamed, f.entry_used, f.entry_not_long, memcmpEq, f.entry_filename,
    List.take_of_length_le (Nat.le_of_eq size), List.take_of_length_le (Nat.le_of_eq f.size)]
  exact Bool.beq_comm

end File

theorem isNamed_long (name : List UInt8) {e : Entry} (long : isLong e = true) :
    isNamed name e = false := by
  rw [isNamed, long, Bool.or_true]
  rfl

theorem find_entries {name : List UInt8} (size : name.length = 11) (r : Record) :
    r.entries.find? (isNamed name) =
      (r.file?.toList.find? fun f => f.raw == name).map File.entry := by
  have file (f : File) : [f.entry].find? (isNamed name) =
      ([f].find? fun f => f.raw == name).map File.entry := by
    rw [List.find?_singleton, List.find?_singleton, f.isNamed_entry size]
    cases f.raw == name with
    | true => rfl
    | false => rfl
  cases r with
  | free e free =>
      have other : isNamed name e = false := by
        rw [isNamed, free]
        rfl
      rw [Record.entries, List.find?_singleton, other]
      rfl
  | short f => exact file f
  | long long f =>
      have none : (longEntries long (lfnChecksum f.raw)).find? (isNamed name) = none := by
        refine List.find?_eq_none.mpr fun e mem => ?_
        rw [isNamed_long name (longEntries_long long _ e mem)]
        exact Bool.false_ne_true
      rw [Record.entries, List.find?_append, none, Option.none_or]
      exact file f

theorem find_stored {name : List UInt8} (size : name.length = 11) (records : List Record) :
    (stored records).find? (isNamed name) =
      ((records.filterMap Record.file?).find? fun f => f.raw == name).map File.entry := by
  induction records with
  | nil => rfl
  | cons r records ih =>
      have split : stored (r :: records) = r.entries ++ stored records := List.flatMap_cons
      have files : (r :: records).filterMap Record.file? =
          r.file?.toList ++ records.filterMap Record.file? := by
        rw [List.filterMap_cons]
        cases r.file? with
        | none => rfl
        | some f => rfl
      rw [split, files, List.find?_append, List.find?_append, find_entries size, ih]
      cases r.file?.toList.find? fun f => f.raw == name with
      | none => rw [Option.map_none, Option.none_or, Option.none_or]
      | some f => rfl

/-- The first file with the name is found, wherever it stands among free entries and long
names, and nothing else is. -/
theorem lookup_finds_first_file (records : List Record) {name : List UInt8}
    (size : name.length = 11) (state : σ) :
    direntFat32Lookup name (stored records) state =
      .ok (((records.filterMap Record.file?).find? fun f => f.raw == name).map File.dirent)
        state := by
  have entry := find_stored size records
  cases found : (records.filterMap Record.file?).find? fun f => f.raw == name with
  | none =>
      rw [found] at entry
      rw [direntFat32Lookup, fat32DirLookup, dirLookup_of_none entry 0]
      rfl
  | some f =>
      rw [found] at entry
      obtain ⟨k, index, there⟩ := dirLookup_of_some entry 0
      have nonneg : ¬ ((0 + k : Nat) : Int) < 0 := by omega
      rw [Nat.zero_add] at index nonneg
      simp only [direntFat32Lookup, fat32DirLookup, index, if_neg nonneg, Int.toNat_natCast, there]
      rw [Prog.bind_of_ok (f.convert state)]
      rfl

theorem lookup_finds_first_file_of_two :
    direntFat32Lookup kernelFile.raw (stored twoFiles) () =
      .ok (((twoFiles.filterMap Record.file?).find?
        fun f => f.raw == kernelFile.raw).map File.dirent) () :=
  lookup_finds_first_file twoFiles kernelFile.size ()

end Cs140e.Fat32
