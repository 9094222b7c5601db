import Cs140e.Fat32.ShortName
import Cs140e.Library.LittleEndian
import Cs140e.Library.Numeral

/-!
# Directories

A directory is an array of entries of 32 bytes.  Those of a long name stand in
front of the entry of the file and hold a checksum of its short name.  The
functions are from `fat32-helpers.c`, `fat32-lfn-helpers.c` and `driver.c`.  What is printed
is a list of lines, which stand for the calls of `printk` by the values they print: fixed
texts, the empty `msg` and the comments on single attribute bits are left out.
-/

namespace Cs140e.Fat32

open Cs140e.Library Cs140e.Library.Buffer

/-- The storage of a `fat32_dir_t` or an `lfn_dir_t`. -/
structure Entry where
  bytes : List UInt8
  size : bytes.length = 32

namespace Entry

variable (e : Entry)

def byte (k : Nat) : UInt8 := e.bytes.getD k 0

def field (start size : Nat) : List UInt8 := (e.bytes.drop start).take size

theorem length_field {start size : Nat} (inside : start + size ≤ 32) :
    (e.field start size).length = size := by
  have length := e.size
  rw [field, List.length_take, List.length_drop]
  omega

theorem byte_of_drop {e : Entry} {start : Nat} {rest : List UInt8}
    (drop : e.bytes.drop start = rest) (k : Nat) : e.byte (start + k) = rest.getD k 0 := by
  rw [byte, ← drop, List.getD_eq_getElem?_getD, List.getD_eq_getElem?_getD,
    List.getElem?_drop]

/-- The entry as a `fat32_dir_t`. -/
def dir : FatDir where
  filename := e.field 0 11
  attr := e.byte 11
  reserved0 := e.byte 12
  size := e.length_field (by decide)

/-- The entry as an `lfn_dir_t`. -/
def lfn : LfnDir where
  name1_5 := e.field 1 10
  attr := e.byte 11
  name6_11 := e.field 14 12
  name12_13 := e.field 28 4
  size1_5 := e.length_field (by decide)
  size6_11 := e.length_field (by decide)
  size12_13 := e.length_field (by decide)

def seqno : UInt8 := e.byte 0

def cksum : UInt8 := e.byte 13

def hiStart : UInt32 := (e.byte 20).toUInt32 ||| (e.byte 21).toUInt32 <<< 8

def loStart : UInt32 := (e.byte 26).toUInt32 ||| (e.byte 27).toUInt32 <<< 8

def fileNbytes : UInt32 := LittleEndian.wordOf (e.field 28 4)

end Entry

/-! ## Long names -/

def lfnChecksum (pFCBName : List UInt8) : UInt8 :=
  (pFCBName.take 11).foldl (fun sum c => ((sum &&& 1) <<< 7) + (sum >>> 1) + c) 0

def lfnIsLast (seqno : UInt8) : Bool := seqno &&& ((1 : UInt8) <<< 6) != 0

def lfnIsFirst (seqno : UInt8) : Bool := seqno &&& ~~~((1 : UInt8) <<< 6) == 1

variable {σ : Type}

/-- The loop of `lfn_print` over the entries of a name. -/
def lfnLoop (cksum : UInt8) : List Entry → Prog σ Unit
  | [] => pure ()
  | e :: s => do
      Prog.assertThat (!lfnIsDeleted e.seqno) "!lfn_is_deleted((s+i)->seqno)"
      Prog.assertThat (e.cksum == cksum) "s[i].cksum == cksum"
      lfnLoop cksum s

/-- `lfn_print` on the `cnt` entries of a name, without `print_ent_p`. -/
def lfnPrint (s : List Entry) (cksum : UInt8) : Prog σ Unit := do
  let cnt := s.length
  Prog.assertThat (1 ≤ cnt) "cnt >= 1"
  Prog.assertThat (cnt > 0 && cnt < 3) "weird for cs140e if larger!"
  lfnLoop cksum s
  match s.head?, s.getLast? with
  | some first, some last =>
      Prog.assertThat (lfnIsLast first.seqno) "lfn_is_last(s->seqno)"
      Prog.assertThat (lfnIsFirst last.seqno) "lfn_is_first((s+cnt-1)->seqno)"
  | _, _ => throw (.undefined "an entry of an empty name")

/-! ## Printing -/

/-- The size is printed with `%d`, as a signed number. -/
inductive Line where
  | notFree (i : Nat)
  | notAllocated
  | isLfn
  | archive
  | needToHandle (attr : UInt8) (text : List UInt8)
  | longName (name : Option (List UInt8))
  | dirent (raw : List UInt8) (name : Option (List UInt8)) (attr : UInt8)
      (hiStart loStart : UInt32) (fileNbytes : Int)
  deriving DecidableEq

abbrev Printing (α : Type) := Prog (List Line) α

def printLine (line : Line) : Printing Unit := modify fun lines => lines ++ [line]

/-- `fat32_dir_attr_str`.  `none`: the panic. -/
def fat32DirAttrStr (attr : UInt8) : Option (List UInt8) :=
  if attr = FAT32_LONG_FILE_NAME then some (asciiBytes " LONG FILE NAME")
  else
    let ro := isAttr attr 0x01
    let buf := if ro then asciiBytes "R/O" else []
    let attr := if ro then attr &&& ~~~0x01 else attr
    let hidden := isAttr attr 0x02
    let buf := if hidden then buf ++ asciiBytes " HIDDEN" else buf
    let attr := if hidden then attr &&& ~~~0x02 else attr
    if attr = 0x04 then some (buf ++ asciiBytes " SYSTEM FILE")
    else if attr = FAT32_VOLUME_LABEL then some (buf ++ asciiBytes " VOLUME LABEL")
    else if attr = FAT32_DIR then some (buf ++ asciiBytes " DIR")
    else if attr = FAT32_ARCHIVE then some (buf ++ asciiBytes " ARCHIVE")
    else none

/-- What `fat32_dirent_print_helper` says about the attributes first.  Its `return` for an
archive stands where there is none. -/
def attrLines (attr : UInt8) : Printing Unit := do
  if isAttr attr FAT32_ARCHIVE then printLine .archive
  else if !isAttr attr FAT32_DIR then
    match fat32DirAttrStr attr with
    | some text => printLine (.needToHandle attr text)
    | none => throw (.panic "unhandled attr=%x\n")

/-- `to_8dot3` with its static array of 14 bytes. -/
def to8dot3String (filename : List UInt8) : Prog σ (Option (List UInt8)) := do
  let (_, s) ← Prog.locally (List.replicate 14 (some 0)) (to8dot3 filename)
  pure (stringAt s)

def fat32DirentPrintHelper (d : Entry) : Printing Unit := do
  if fat32DirentFree d.dir then printLine .notAllocated
  else if d.dir.attr = FAT32_LONG_FILE_NAME then printLine .isLfn
  else
    attrLines d.dir.attr
    let name ← to8dot3String d.dir.filename
    printLine (.dirent d.dir.filename name d.dir.attr d.hiStart d.loStart
      d.fileNbytes.toInt32.toInt)

/-- `lfn_get_name` with its static array of 512 bytes. -/
def lfnName (s : List Entry) : Prog σ (Option (List UInt8)) := do
  let (_, filename) ← Prog.locally (List.replicate 512 (some 0))
    (lfnGetName (s.map Entry.lfn) s.length)
  pure (stringAt filename)

def isLong (e : Entry) : Bool := e.dir.attr == FAT32_LONG_FILE_NAME

/-- `fat32_lfn_print` at the first entry of those that are left. -/
def fat32LfnPrint (left : List Entry) : Printing Nat := do
  match left with
  | [] => throw (.undefined "an entry behind the directory")
  | d :: _ =>
      if d.dir.attr ≠ FAT32_LONG_FILE_NAME then
        fat32DirentPrintHelper d
        pure 1
      else
        let s := left.takeWhile isLong
        match left.drop s.length with
        | [] => throw (.panic "cnt < left")
        | d :: _ =>
            Prog.assertThat (isAttr d.dir.attr FAT32_DIR || isAttr d.dir.attr FAT32_ARCHIVE)
              "is_attr(d[cnt].attr, FAT32_DIR) || is_attr(d[cnt].attr, FAT32_ARCHIVE)"
            lfnPrint s (lfnChecksum d.dir.filename)
            let name ← lfnName s
            printLine (.longName name)
            fat32DirentPrintHelper d
            pure (s.length + 1)

/-- The loop of `notmain` that prints a directory with its long names, from the index `i` on.
It stands under `#if 0`, in place of the loop that calls `fat32_dirent_print`. -/
def printDirs : Nat → Nat → List Entry → Printing Unit
  | _, _, [] => pure ()
  | 0, _, _ => throw .outOfFuel
  | fuel + 1, i, d :: left => do
      if fat32DirentFree d.dir then printDirs fuel (i + 1) left
      else
        printLine (.notFree i)
        let cnt ← fat32LfnPrint (d :: left)
        printDirs fuel (i + cnt) ((d :: left).drop cnt)

/-! ## Looking up -/

/-- `memcmp(s1, s2, nbytes) == 0` for arrays that are long enough. -/
def memcmpEq (s1 s2 : List UInt8) (nbytes : Nat) : Bool := s1.take nbytes == s2.take nbytes

/-- `fat32_dir_lookup` from the index `i` on. -/
def dirLookup (name : List UInt8) : List Entry → Nat → Int
  | [], _ => -1
  | d :: dirs, i =>
      if fat32DirentFree d.dir || isLong d then dirLookup name dirs (i + 1)
      else if memcmpEq name d.dir.filename 11 then i
      else dirLookup name dirs (i + 1)

def fat32DirLookup (name : List UInt8) (dirs : List Entry) : Int := dirLookup name dirs 0

/-- `dirent_t`.  A directory is an entry whose attribute is the bit of a directory alone. -/
structure Dirent where
  name : Option (List UInt8)
  rawName : List UInt8
  clusterId : UInt32
  isDirP : Bool
  nbytes : UInt32
  deriving DecidableEq

def fat32DirentConvert (d : Entry) : Prog σ Dirent := do
  let name ← to8dot3String d.dir.filename
  pure
    { name := name, rawName := d.dir.filename, clusterId := d.hiStart <<< 16 ||| d.loStart,
      isDirP := d.dir.attr == FAT32_DIR, nbytes := d.fileNbytes }

/-- `dirent_fat32_lookup`, with `none` for a null pointer. -/
def direntFat32Lookup (rawName : List UInt8) (dirs : List Entry) : Prog σ (Option Dirent) := do
  let i := fat32DirLookup rawName dirs
  if i < 0 then pure none
  else
    match dirs[i.toNat]? with
    | none => throw (.undefined "an entry behind the directory")
    | some d =>
        let e ← fat32DirentConvert d
        pure (some e)

end Cs140e.Fat32
