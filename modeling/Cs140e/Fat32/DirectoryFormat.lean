import Cs140e.Fat32.Directory

/-!
# The stored form of a directory

A directory is a row of records: free entries, files with a short name, and files
with a long name in front of the short one.
-/

namespace Cs140e.Fat32

open Cs140e.Library Cs140e.Library.Buffer

variable {σ : Type}

/-! ## Files -/

/-- A file, with the bytes of its entry that no function reads. -/
structure File where
  raw : List UInt8
  attr : UInt8
  stamps : List UInt8
  modified : List UInt8
  cluster : UInt32
  nbytes : UInt32
  size : raw.length = 11
  sizeStamps : stamps.length = 8
  sizeModified : modified.length = 4
  used : ∀ c ∈ raw.head?, c ≠ 0 ∧ c ≠ 0xe5
  noNul : 0 ∉ raw
  named : trimmed (raw.take 8) ≠ []
  notLong : attr ≠ FAT32_LONG_FILE_NAME

namespace File

variable (f : File)

/-- The entry of a file: the cluster number is split into two halves. -/
def entry : Entry where
  bytes := f.raw ++ (f.attr :: (f.stamps ++ ((LittleEndian.bytesOf f.cluster).drop 2 ++
    (f.modified ++ ((LittleEndian.bytesOf f.cluster).take 2 ++
      LittleEndian.bytesOf f.nbytes)))))
  size := by
    simp only [List.length_append, List.length_cons, List.length_drop, List.length_take, f.size,
      f.sizeStamps, f.sizeModified, LittleEndian.length_bytesOf]
    rfl

theorem entry_filename : f.entry.dir.filename = f.raw := List.take_left' f.size

theorem entry_attr : f.entry.dir.attr = f.attr := by
  have length := f.size
  simp [Entry.dir, Entry.byte, entry, List.getD_eq_getElem?_getD, length]

theorem entry_drop_20 : f.entry.bytes.drop 20 = (LittleEndian.bytesOf f.cluster).drop 2 ++
    (f.modified ++ ((LittleEndian.bytesOf f.cluster).take 2 ++
      LittleEndian.bytesOf f.nbytes)) := by
  have front : (f.raw ++ (f.attr :: f.stamps)).length = 20 := by
    rw [List.length_append, List.length_cons, f.size, f.sizeStamps]
  have split : f.entry.bytes = (f.raw ++ (f.attr :: f.stamps)) ++
      ((LittleEndian.bytesOf f.cluster).drop 2 ++ (f.modified ++
        ((LittleEndian.bytesOf f.cluster).take 2 ++ LittleEndian.bytesOf f.nbytes))) := by
    rw [List.append_assoc]
    rfl
  rw [split, ← front, List.drop_left]

theorem entry_drop_26 : f.entry.bytes.drop 26 =
    (LittleEndian.bytesOf f.cluster).take 2 ++ LittleEndian.bytesOf f.nbytes := by
  have front : ((LittleEndian.bytesOf f.cluster).drop 2 ++ f.modified).length = 6 := by
    rw [List.length_append, f.sizeModified]
    rfl
  have split : f.entry.bytes.drop 26 = (f.entry.bytes.drop 20).drop 6 := by rw [List.drop_drop]
  rw [split, entry_drop_20, ← front, ← List.append_assoc, List.drop_left]

theorem entry_clusterId : f.entry.hiStart <<< 16 ||| f.entry.loStart = f.cluster := by
  have b20 := Entry.byte_of_drop f.entry_drop_20 0
  have b21 := Entry.byte_of_drop f.entry_drop_20 1
  have b26 := Entry.byte_of_drop f.entry_drop_26 0
  have b27 := Entry.byte_of_drop f.entry_drop_26 1
  simp only [LittleEndian.bytesOf, List.drop_succ_cons, List.drop_zero, List.take_succ_cons,
    List.take_zero, List.cons_append, List.getD_cons_zero, List.getD_cons_succ] at b20 b21 b26 b27
  rw [Entry.hiStart, Entry.loStart, b20, b21, b26, b27, LittleEndian.or_shift_halves]
  exact LittleEndian.wordOf_bytesOf f.cluster

theorem entry_fileNbytes : f.entry.fileNbytes = f.nbytes := by
  have split : f.entry.bytes.drop 28 = (f.entry.bytes.drop 26).drop 2 := by rw [List.drop_drop]
  rw [Entry.fileNbytes, Entry.field, split, entry_drop_26]
  exact LittleEndian.wordOf_bytesOf f.nbytes

end File

/-! ## Long names -/

/-- An entry of a long name. -/
def lfnEntry (seqno cksum : UInt8) (part : LfnDir) : Entry where
  bytes := seqno :: (part.name1_5 ++ (FAT32_LONG_FILE_NAME :: 0 :: cksum ::
    (part.name6_11 ++ (0 :: 0 :: part.name12_13))))
  size := by
    simp only [List.length_append, List.length_cons, part.size1_5, part.size6_11,
      part.size12_13]

section

variable (seqno cksum : UInt8) (part : LfnDir)

theorem lfnEntry_drop_11 : (lfnEntry seqno cksum part).bytes.drop 11 =
    FAT32_LONG_FILE_NAME :: 0 :: cksum :: (part.name6_11 ++ (0 :: 0 :: part.name12_13)) := by
  have front : (seqno :: part.name1_5).length = 11 := by rw [List.length_cons, part.size1_5]
  have split : (lfnEntry seqno cksum part).bytes = (seqno :: part.name1_5) ++
      (FAT32_LONG_FILE_NAME :: 0 :: cksum ::
        (part.name6_11 ++ (0 :: 0 :: part.name12_13))) := rfl
  rw [split, ← front, List.drop_left]

theorem lfnEntry_attr : (lfnEntry seqno cksum part).byte 11 = FAT32_LONG_FILE_NAME :=
  Entry.byte_of_drop (lfnEntry_drop_11 seqno cksum part) 0

theorem lfnEntry_cksum : (lfnEntry seqno cksum part).cksum = cksum :=
  Entry.byte_of_drop (lfnEntry_drop_11 seqno cksum part) 2

theorem lfnEntry_lfn (long : part.attr = FAT32_LONG_FILE_NAME) :
    (lfnEntry seqno cksum part).lfn = part := by
  have d14 : (lfnEntry seqno cksum part).bytes.drop 14 =
      part.name6_11 ++ (0 :: 0 :: part.name12_13) := by
    have split : (lfnEntry seqno cksum part).bytes.drop 14 =
        ((lfnEntry seqno cksum part).bytes.drop 11).drop 3 := by rw [List.drop_drop]
    rw [split, lfnEntry_drop_11]
    rfl
  have d28 : (lfnEntry seqno cksum part).bytes.drop 28 = part.name12_13 := by
    have split : (lfnEntry seqno cksum part).bytes.drop 28 =
        (((lfnEntry seqno cksum part).bytes.drop 14).drop 12).drop 2 := by
      rw [List.drop_drop, List.drop_drop]
    rw [split, d14, List.drop_left' part.size6_11]
    rfl
  have attr := lfnEntry_attr seqno cksum part
  have first : (lfnEntry seqno cksum part).field 1 10 = part.name1_5 := by
    rw [Entry.field, lfnEntry, List.drop_succ_cons, List.drop_zero]
    exact List.take_left' part.size1_5
  have second : (lfnEntry seqno cksum part).field 14 12 = part.name6_11 := by
    rw [Entry.field, d14, List.take_left' part.size6_11]
  have third : (lfnEntry seqno cksum part).field 28 4 = part.name12_13 := by
    rw [Entry.field, d28, List.take_of_length_le (Nat.le_of_eq part.size12_13)]
  cases part
  simp only [Entry.lfn, LfnDir.mk.injEq]
  exact ⟨first, attr.trans long.symm, second, third⟩

end

/-- The number of an entry at the index `i`: the first is marked as the last part. -/
def seqnoAt (parts i : Nat) : UInt8 := UInt8.ofNat (parts - i) ||| if i = 0 then 0x40 else 0

/-- The entries of a long name: the last part comes first. -/
def longEntries (name : LongName) (cksum : UInt8) : List Entry :=
  name.entries.mapIdx fun i part => lfnEntry (seqnoAt name.parts i) cksum part

section

variable (name : LongName) (cksum : UInt8)

theorem attr_of_mem_entries {part : LfnDir} (mem : part ∈ name.entries) :
    part.attr = FAT32_LONG_FILE_NAME := by
  obtain ⟨i, rfl⟩ := List.mem_ofFn.mp mem
  rfl

theorem longEntries_lfn : (longEntries name cksum).map Entry.lfn = name.entries := by
  refine List.ext_getElem? fun i => ?_
  rw [longEntries, List.getElem?_map, List.getElem?_mapIdx, Option.map_map]
  cases there : name.entries[i]? with
  | none => rfl
  | some part =>
      have long := attr_of_mem_entries name (List.mem_of_getElem? there)
      exact congrArg some (lfnEntry_lfn (seqnoAt name.parts i) cksum part long)

theorem length_longEntries : (longEntries name cksum).length = name.parts := by
  rw [longEntries, List.length_mapIdx, LongName.length_entries]

theorem longEntries_long : ∀ e ∈ longEntries name cksum, isLong e = true := by
  intro e mem
  obtain ⟨i, inside, rfl⟩ := List.mem_mapIdx.mp mem
  exact beq_iff_eq.mpr (lfnEntry_attr _ _ _)

theorem longEntries_cksum : ∀ e ∈ longEntries name cksum, e.cksum = cksum := by
  intro e mem
  obtain ⟨i, inside, rfl⟩ := List.mem_mapIdx.mp mem
  exact lfnEntry_cksum _ _ _

theorem parts_pos : 0 < name.parts := by
  have some := List.length_pos_iff.mpr name.nonempty
  unfold LongName.parts
  omega

/-- The name comes back. -/
theorem lfnName_longEntries {few : Nat} (short : name.units.length ≤ few) (room : few ≤ 127)
    (state : σ) : lfnName (longEntries name cksum) state = .ok (some name.utf8) state := by
  have size (unit : UInt16) : (utf8Of unit).length ≤ 4 := by
    rw [utf8Of, String.length_utf8EncodeChar]
    exact Char.utf8Size_le_four _
  have fits : name.utf8.length ≤ 4 * name.units.length := by
    rw [LongName.utf8, List.length_flatMap]
    generalize name.units = units
    induction units with
    | nil => exact Nat.le_refl _
    | cons unit units ih =>
        have first := size unit
        rw [List.map_cons, List.sum_cons, List.length_cons]
        omega
  have inverted : name.Inverted (List.replicate 512 (some 0)) := by
    apply name.inverted_of_fits
    rw [List.length_replicate]
    omega
  obtain ⟨after, ran, string⟩ := inverted
  rw [LongName.length_entries] at ran
  rw [lfnName, longEntries_lfn, length_longEntries, Prog.bind_of_ok (Prog.locally_of_ok ran state)]
  exact congrArg (fun name => EStateM.Result.ok name state) string

end

/-! ## Records -/

/-- What a directory consists of. -/
inductive Record where
  | free (e : Entry) (free : fat32DirentFree e.dir = true)
  | short (f : File)
  | long (name : LongName) (f : File)

/-- The attributes about which an entry of a short name alone can be printed.  Others make
`fat32_dir_attr_str` panic, those of a plain file without the archive bit among them. -/
def Described (attr : UInt8) : Prop :=
  isAttr attr FAT32_DIR = true ∨ isAttr attr FAT32_ARCHIVE = true ∨
    attr &&& 0xfc = 0x04 ∨ attr &&& 0xfc = FAT32_VOLUME_LABEL

/-- Only files and directories may have a long name. -/
def Nameable (attr : UInt8) : Prop :=
  isAttr attr FAT32_DIR = true ∨ isAttr attr FAT32_ARCHIVE = true

def File.attrLines (f : File) : List Line :=
  if isAttr f.attr FAT32_ARCHIVE then [.archive]
  else if isAttr f.attr FAT32_DIR then []
  else [.needToHandle f.attr ((fat32DirAttrStr f.attr).getD [])]

/-- What is printed about a file. -/
def File.lines (f : File) : List Line :=
  f.attrLines ++ [.dirent f.raw (some (dotted (trimmed (f.raw.take 8)) (f.raw.drop 8))) f.attr
    f.entry.hiStart f.entry.loStart f.nbytes.toInt32.toInt]

namespace Record

def entries : Record → List Entry
  | free e _ => [e]
  | short f => [f.entry]
  | long name f => longEntries name (lfnChecksum f.raw) ++ [f.entry]

/-- What is printed about a record whose first entry has the index `i`. -/
def lines (i : Nat) : Record → List Line
  | free _ _ => []
  | short f => .notFree i :: f.lines
  | long name f => .notFree i :: .longName (some name.utf8) :: f.lines

/-- The file of a record. -/
def file? : Record → Option File
  | free _ _ => none
  | short f => some f
  | long _ f => some f

/-- The checks of the printing functions.  Names of more than two parts are refused. -/
def Printable : Record → Prop
  | free _ _ => True
  | short f => Described f.attr
  | long name f => name.units.length ≤ 26 ∧ Nameable f.attr

end Record

def stored (records : List Record) : List Entry := records.flatMap Record.entries

/-- What is printed about records of which the first stands at the index `i`. -/
def rowLines : Nat → List Record → List Line
  | _, [] => []
  | i, r :: records => r.lines i ++ rowLines (i + r.entries.length) records

end Cs140e.Fat32
