import Mathlib.Data.List.FinRange
import Cs140e.Fat32.Utf8
import Cs140e.Library.LittleEndian
import Cs140e.Library.Strings

/-!
# Long file names

A translation of `lfn_get_name` in `fat32-lfn-helpers.c`.  The state is the
static array `filename`, with whatever an earlier call left in it; a pointer
into it is an index.  A long name is stored in entries of 13 units, its last
part first.  The name is read back exactly if its encoding leaves room for the
zero byte in the 512 bytes of the array.
-/

namespace Cs140e.Fat32

open Cs140e.Library Cs140e.Library.Buffer

/-- The fields of `lfn_dir_t` that are read. -/
structure LfnDir where
  name1_5 : List UInt8
  attr : UInt8
  name6_11 : List UInt8
  name12_13 : List UInt8
  size1_5 : name1_5.length = 10
  size6_11 : name6_11.length = 12
  size12_13 : name12_13.length = 4

def FAT32_LONG_FILE_NAME : UInt8 := 0x0f

/-! ## `lfn_get_name` -/

def lfnTerminator (x0 x1 : UInt8) : Bool :=
  (x0 == 0 && x1 == 0) || (x0 == 0xff && x1 == 0xff)

/-- The loop of `utf8_append`. -/
def utf8Loop : List UInt8 → Nat → Prog (Buffer UInt8) Nat
  | x0 :: x1 :: unicode, buf =>
      if lfnTerminator x0 x1 then pure buf
      else do
        match ← toUtf8 (x0.toUInt32 ||| x1.toUInt32 <<< 8) with
        | none => throw (.undefined "the string at a null pointer")
        | some utf8 =>
            strcat buf utf8
            let len ← strlen (utf8.map some)
            utf8Loop unicode (buf + len)
  | _, buf => pure buf

/-- `utf8_append` on a whole field. -/
def utf8Append (unicode : List UInt8) (buf : Nat) : Prog (Buffer UInt8) Nat := do
  Prog.assertThat (unicode.length % 2 == 0) "nbytes%2 == 0"
  utf8Loop unicode buf

/-- The loop of `lfn_get_name`, from `i - 1` down. -/
def nameLoop (s : List LfnDir) : Nat → Nat → Prog (Buffer UInt8) Nat
  | 0, buf => pure buf
  | i + 1, buf => do
      match s[i]? with
      | none => throw (.undefined "an entry behind the directory")
      | some l =>
          Prog.assertThat (l.attr == FAT32_LONG_FILE_NAME) "l->attr == FAT32_LONG_FILE_NAME"
          let buf ← utf8Append l.name1_5 buf
          let buf ← utf8Append l.name6_11 buf
          let buf ← utf8Append l.name12_13 buf
          nameLoop s i buf

def lfnGetName (s : List LfnDir) (cnt : Nat) : Prog (Buffer UInt8) Unit := do
  store 0 0
  let buf ← nameLoop s cnt 0
  store buf 0

/-! ## The stored form of a name -/

/-- A name of 1 to 255 units. -/
structure LongName where
  units : List UInt16
  nonempty : units ≠ []
  short : units.length ≤ 255
  plain : ∀ unit ∈ units, Plain unit

/-- Units as they are stored. -/
def unitBytes (units : List UInt16) : List UInt8 :=
  units.flatMap fun unit : UInt16 => [unit.toUInt8, (unit >>> 8).toUInt8]

@[simp]
theorem length_unitBytes (units : List UInt16) : (unitBytes units).length = 2 * units.length := by
  rw [unitBytes, List.length_flatMap]
  simp [Nat.mul_comm]

namespace LongName

variable (name : LongName)

/-- The standard encoding of the name. -/
def utf8 : List UInt8 := name.units.flatMap utf8Of

/-- The number of entries. -/
def parts : Nat := (name.units.length + 12) / 13

/-- What is stored behind the units of the name. -/
def padding : List UInt16 :=
  (0 :: List.replicate 12 0xFFFF).take (13 * name.parts - name.units.length)

/-- Some of the stored units. -/
def field (start size : Nat) : List UInt16 := ((name.units ++ name.padding).drop start).take size

theorem length_stored : (name.units ++ name.padding).length = 13 * name.parts := by
  have length : name.padding.length = 13 * name.parts - name.units.length := by
    rw [padding, List.length_take, List.length_cons, List.length_replicate, parts]
    omega
  rw [List.length_append, length, parts]
  omega

theorem length_field {start size : Nat} (inside : start + size ≤ 13 * name.parts) :
    (unitBytes (name.field start size)).length = 2 * size := by
  rw [length_unitBytes, field, List.length_take, List.length_drop, length_stored]
  omega

/-- The entry of a part of the name. -/
def part (k : Nat) (inside : k < name.parts) : LfnDir where
  name1_5 := unitBytes (name.field (13 * k) 5)
  attr := FAT32_LONG_FILE_NAME
  name6_11 := unitBytes (name.field (13 * k + 5) 6)
  name12_13 := unitBytes (name.field (13 * k + 11) 2)
  size1_5 := name.length_field (by omega)
  size6_11 := name.length_field (by omega)
  size12_13 := name.length_field (by omega)

/-- The entries of a name: the last part comes first. -/
def entries : List LfnDir :=
  List.ofFn fun i : Fin name.parts => name.part (name.parts - 1 - i) (by omega)

theorem length_entries : name.entries.length = name.parts := List.length_ofFn

theorem entries_at {i : Nat} (inside : i < name.parts) :
    name.entries[i]? = some (name.part (name.parts - 1 - i) (by omega)) := by
  rw [entries, List.getElem?_ofFn, dif_pos inside]

end LongName

/-! ## One unit -/

theorem toNat_high (unit : UInt16) : (unit >>> 8).toUInt8.toNat = unit.toNat / 2 ^ 8 := by
  have small := unit.toNat_lt
  have shifted : (unit >>> 8).toNat = unit.toNat / 2 ^ 8 := by
    rw [UInt16.toNat_shiftRight, Nat.shiftRight_eq_div_pow]
    rfl
  rw [UInt16.toNat_toUInt8, shifted]
  omega

theorem unit_of_bytes (unit : UInt16) :
    unit.toUInt8.toUInt32 ||| (unit >>> 8).toUInt8.toUInt32 <<< 8 = unit.toUInt32 := by
  have small := unit.toNat_lt
  have low : unit.toUInt8.toUInt32.toNat = unit.toNat % 2 ^ 8 := by
    rw [UInt8.toNat_toUInt32, UInt16.toNat_toUInt8]
  have high : ((unit >>> 8).toUInt8.toUInt32 <<< 8).toNat = 2 ^ 8 * (unit.toNat / 2 ^ 8) := by
    rw [UInt32.toNat_shiftLeft, UInt8.toNat_toUInt32, toNat_high, Nat.shiftLeft_eq]
    change unit.toNat / 2 ^ 8 * 2 ^ 8 % 2 ^ 32 = _
    omega
  apply UInt32.toNat_inj.mp
  rw [LittleEndian.toNat_or_of_lt 8 _ _ (by omega) (by omega), low, high, UInt16.toNat_toUInt32]
  omega

theorem lfnTerminator_iff (unit : UInt16) :
    lfnTerminator unit.toUInt8 (unit >>> 8).toUInt8 = true ↔ unit = 0 ∨ unit = 0xFFFF := by
  have small := unit.toNat_lt
  have high := toNat_high unit
  simp only [lfnTerminator, Bool.or_eq_true, Bool.and_eq_true, beq_iff_eq, ← UInt8.toNat_inj,
    ← UInt16.toNat_inj, high, UInt16.toNat_toUInt8, UInt8.reduceToNat, UInt16.reduceToNat]
  omega

/-! ## Reading a field -/

theorem unitBytes_cons (unit : UInt16) (units : List UInt16) :
    unitBytes (unit :: units) = unit.toUInt8 :: (unit >>> 8).toUInt8 :: unitBytes units := rfl

theorem utf8Loop_ends {unit : UInt16} (ends : unit = 0 ∨ unit = 0xFFFF) (rest : List UInt16) :
    utf8Loop (unitBytes (unit :: rest)) = fun buf => pure buf := by
  funext buf
  rw [unitBytes_cons, utf8Loop, if_pos ((lfnTerminator_iff unit).mpr ends)]

theorem utf8Loop_plain {unit : UInt16} (plain : Plain unit) (rest : List UInt16) :
    utf8Loop (unitBytes (unit :: rest)) = fun buf =>
      (do
        strcat buf (utf8Of unit ++ [0])
        let len ← strlen ((utf8Of unit ++ [0]).map some)
        pure (buf + len)) >>= utf8Loop (unitBytes rest) := by
  funext buf
  have goesOn : ¬ lfnTerminator unit.toUInt8 (unit >>> 8).toUInt8 = true := by
    rw [lfnTerminator_iff, not_or]
    exact ⟨plain.1, plain.2.1⟩
  rw [unitBytes_cons, utf8Loop, if_neg goesOn, unit_of_bytes]
  funext buffer
  rw [Prog.bind_of_ok (toUtf8_plain plain buffer)]
  simp only [bind_assoc, pure_bind]

theorem utf8Loop_appends {units rest : List UInt16} (plain : ∀ unit ∈ units, Plain unit)
    (ends : ∀ unit ∈ rest, unit = 0 ∨ unit = 0xFFFF) :
    Appends (utf8Loop (unitBytes (units ++ rest))) (units.flatMap utf8Of) := by
  induction units with
  | nil =>
      cases rest with
      | nil => exact Appends.nothing
      | cons unit rest =>
          rw [List.nil_append, utf8Loop_ends (ends unit List.mem_cons_self)]
          exact Appends.nothing
  | cons unit units ih =>
      have first := plain unit List.mem_cons_self
      rw [List.cons_append, utf8Loop_plain first, List.flatMap_cons]
      exact (Appends.strcat (nul_not_mem_utf8Of first)).bind
        (ih fun other mem => plain other (List.mem_cons_of_mem _ mem))

theorem utf8Append_even {unicode : List UInt8} (even : unicode.length % 2 = 0) :
    utf8Append unicode = utf8Loop unicode := by
  funext buf buffer
  rw [utf8Append, even]
  rfl

namespace LongName

variable (name : LongName)

theorem field_eq (start size : Nat) :
    ∃ rest : List UInt16, name.field start size = (name.units.drop start).take size ++ rest ∧
      ∀ unit ∈ rest, unit = 0 ∨ unit = 0xFFFF := by
  refine ⟨(name.padding.drop (start - name.units.length)).take
    (size - (name.units.drop start).length), ?_, ?_⟩
  · rw [field, List.drop_append, List.take_append]
  · intro unit mem
    have stored := List.mem_of_mem_take (List.mem_of_mem_drop (List.mem_of_mem_take mem))
    rw [List.mem_cons] at stored
    exact stored.imp_right List.eq_of_mem_replicate

theorem field_appends (start size : Nat) :
    Appends (utf8Append (unitBytes (name.field start size)))
      (((name.units.drop start).take size).flatMap utf8Of) := by
  obtain ⟨rest, same, ends⟩ := name.field_eq start size
  rw [utf8Append_even (by rw [length_unitBytes, Nat.mul_mod_right]), same]
  exact utf8Loop_appends
    (fun unit mem => name.plain unit (List.mem_of_mem_drop (List.mem_of_mem_take mem))) ends

/-- The text of a part and of all later parts. -/
theorem drop_part (start : Nat) :
    (name.units.drop start).take 5 ++ ((name.units.drop (start + 5)).take 6 ++
      ((name.units.drop (start + 11)).take 2 ++ name.units.drop (start + 13))) =
        name.units.drop start := by
  have third := List.take_append_drop 2 (name.units.drop (start + 11))
  have second := List.take_append_drop 6 (name.units.drop (start + 5))
  have first := List.take_append_drop 5 (name.units.drop start)
  rw [List.drop_drop] at third second first
  rw [third, second, first]

theorem nameLoop_appends {i : Nat} (inside : i ≤ name.parts) :
    Appends (nameLoop name.entries i)
      ((name.units.drop (13 * (name.parts - i))).flatMap utf8Of) := by
  induction i with
  | zero =>
      have all : name.units.length ≤ 13 * (name.parts - 0) := by
        rw [parts]
        omega
      rw [List.drop_eq_nil_of_le all]
      exact Appends.nothing
  | succ i ih =>
      have last : name.parts - 1 - i = name.parts - (i + 1) := by omega
      have next : 13 * (name.parts - i) = 13 * (name.parts - (i + 1)) + 13 := by omega
      have run : nameLoop name.entries (i + 1) = fun buf =>
          utf8Append (unitBytes (name.field (13 * (name.parts - (i + 1))) 5)) buf >>= fun buf =>
            utf8Append (unitBytes (name.field (13 * (name.parts - (i + 1)) + 5) 6)) buf >>=
              fun buf =>
                utf8Append (unitBytes (name.field (13 * (name.parts - (i + 1)) + 11) 2)) buf >>=
                  nameLoop name.entries i := by
        funext buf
        rw [nameLoop, name.entries_at inside]
        simp only [last]
        rfl
      rw [run, ← name.drop_part]
      simp only [List.flatMap_append]
      rw [next] at ih
      exact (name.field_appends _ _).bind ((name.field_appends _ _).bind
        ((name.field_appends _ _).bind (ih (Nat.le_of_succ_le inside))))

theorem nul_not_mem_utf8 : 0 ∉ name.utf8 := by
  intro mem
  obtain ⟨unit, stored, found⟩ := List.mem_flatMap.mp mem
  exact nul_not_mem_utf8Of (name.plain unit stored) found

/-- The call gives back the encoding of the name and stays inside of the array. -/
def Inverted (filename : Buffer UInt8) : Prop :=
  ∃ after, lfnGetName name.entries name.entries.length filename = .ok () after ∧
    stringAt after = some name.utf8

theorem entries_append : Appends (nameLoop name.entries name.entries.length) name.utf8 := by
  have appends := name.nameLoop_appends (Nat.le_refl name.parts)
  rwa [Nat.sub_self, Nat.mul_zero, List.drop_zero, ← length_entries] at appends

theorem inverted_of_fits {filename : Buffer UInt8} (room : name.utf8.length < filename.length) :
    name.Inverted filename := by
  have started := Appends.store_start (Nat.zero_lt_of_lt room)
  have named := name.entries_append.fits_start room
  refine ⟨written filename (name.utf8 ++ [0]), ?_, ?_⟩
  · rw [lfnGetName, Prog.bind_of_ok started, Prog.bind_of_ok named, store_over room]
  · exact stringAt_append name.nul_not_mem_utf8 _

theorem overflows_of_long {filename : Buffer UInt8} (start : 0 < filename.length)
    (long : filename.length ≤ name.utf8.length) :
    Overflows (lfnGetName name.entries name.entries.length filename) := by
  rw [lfnGetName, Prog.bind_of_ok (Appends.store_start start)]
  exact overflows_bind (name.entries_append.overflows_start start long)

theorem not_inverted_of_long {filename : Buffer UInt8} (start : 0 < filename.length)
    (long : filename.length ≤ name.utf8.length) : ¬ name.Inverted filename := by
  intro inverted
  obtain ⟨after, ran, -⟩ := inverted
  have overflows := name.overflows_of_long start long
  rw [ran] at overflows
  cases overflows

/-- One unit over and over. -/
def repeated (unit : UInt16) (plain : Plain unit) (n : Nat) (positive : 0 < n) (short : n ≤ 255) :
    LongName where
  units := List.replicate n unit
  nonempty := by
    rw [Ne, List.replicate_eq_nil_iff]
    exact Nat.ne_of_gt positive
  short := by rwa [List.length_replicate]
  plain := fun _ mem => List.eq_of_mem_replicate mem ▸ plain

theorem length_utf8_repeated {unit : UInt16} (plain : Plain unit) {n : Nat} (positive : 0 < n)
    (short : n ≤ 255) :
    (repeated unit plain n positive short).utf8.length = n * (utf8Of unit).length := by
  rw [utf8, List.length_flatMap, repeated, List.map_replicate, List.sum_replicate_nat]

end LongName

/-- The name comes back exactly if its encoding and the zero byte fit the
512 bytes of `filename`. -/
theorem lfn_get_name_inverts_iff (name : LongName) {filename : Buffer UInt8}
    (size : filename.length = 512) : name.Inverted filename ↔ name.utf8.length ≤ 511 := by
  constructor
  · intro inverted
    by_contra long
    exact name.not_inverted_of_long (by omega) (by omega) inverted
  · intro short
    exact name.inverted_of_fits (by omega)

theorem plain_6587 : Plain 0x6587 := by
  refine ⟨by decide, by decide, by decide⟩

theorem lfn_get_name_inverts_iff_of_two_parts :
    (LongName.repeated 0x6587 plain_6587 14 (by decide) (by decide)).Inverted
      (List.replicate 512 (some 0)) :=
  (lfn_get_name_inverts_iff _ List.length_replicate).mpr (by decide)

/-- 171 characters of three bytes: 513 bytes are stored. -/
theorem lfn_get_name_overflows :
    ¬ ∀ (name : LongName) (filename : Buffer UInt8), filename.length = 512 →
      name.Inverted filename := by
  intro inverts
  have size : (List.replicate 512 (some 0) : Buffer UInt8).length = 512 := List.length_replicate
  refine (LongName.repeated 0x6587 plain_6587 171 (by decide) (by decide)).not_inverted_of_long
    ?_ ?_ (inverts _ _ size)
  · rw [size]
    decide
  · rw [size, LongName.length_utf8_repeated]
    decide

end Cs140e.Fat32
