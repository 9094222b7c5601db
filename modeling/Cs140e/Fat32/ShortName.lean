import Mathlib.Data.List.DropRight
import Cs140e.Fat32.LongName

/-!
# Short file names

Translations of the two functions that print the 8.3 name of an entry:
`fat32_dirent_name` with its helper `to_8dot3` in `fat32-helpers.c`, and the
branch of `fat32_dir_filename` in `fat32-lfn-helpers.c`.  The first one drops the
spaces at the end of the eight characters, the second one all of their spaces.
-/

namespace Cs140e.Fat32

open Cs140e.Library Cs140e.Library.Buffer

/-- The fields of `fat32_dir_t` that are read. -/
structure FatDir where
  filename : List UInt8
  attr : UInt8
  reserved0 : UInt8
  size : filename.length = 11

def FAT32_VOLUME_LABEL : UInt8 := 0x08

def FAT32_DIR : UInt8 := 0x10

def FAT32_ARCHIVE : UInt8 := 0x20

/-! ## `fat32_dirent_name` -/

/-- Consecutive stores from index `i` on; the index behind them. -/
def storeBytes : List UInt8 → Nat → Prog (Buffer UInt8) Nat
  | [], i => pure i
  | c :: p, i => do
      store i c
      storeBytes p (i + 1)

/-- The loop of `to_8dot3` from index `i - 1` down: the index behind the last
character that is not a space. -/
def lastNonspace : Nat → Prog (Buffer UInt8) (Option Nat)
  | 0 => pure none
  | i + 1 => do
      let c ← fetch (← get) i
      if c ≠ 32 then pure (some (i + 1))
      else lastNonspace i

/-- `to_8dot3`; the state is its static array. -/
def to8dot3 (p : List UInt8) : Prog (Buffer UInt8) Unit := do
  let _ ← storeBytes (p.take 8) 0
  match ← lastNonspace 8 with
  | none => throw (.undefined "s[-1]")
  | some i =>
      store i 46
      let i ← storeBytes (p.drop 8) (i + 1)
      store i 0

def strcpy (dst : Nat) : Buffer UInt8 → Prog (Buffer UInt8) Unit
  | [] => throw (.undefined "a cell outside of the array")
  | none :: _ => throw (.undefined "a cell that is not set")
  | some c :: src => do
      store dst c
      if c = 0 then pure () else strcpy (dst + 1) src

/-- `fat32_dirent_name`; `s` is the static array of `to_8dot3`. -/
def fat32DirentName (s : Buffer UInt8) (d : FatDir) : Prog (Buffer UInt8) Unit := do
  let (_, s) ← Prog.locally s (to8dot3 d.filename)
  strcpy 0 s

/-! ## `fat32_dir_filename` -/

def isAttr (x flag : UInt8) : Bool :=
  if x = FAT32_LONG_FILE_NAME then x == flag else x &&& flag == flag

def lfnIsDeleted (seqno : UInt8) : Bool := seqno &&& 0xe5 == 0xe5

def fat32DirentFree (d : FatDir) : Bool :=
  match d.filename with
  | [] => false
  | x :: _ => if d.attr = FAT32_LONG_FILE_NAME then lfnIsDeleted x else x == 0 || x == 0xe5

def lowered (lowerCaseP : Bool) (c : UInt8) : UInt8 :=
  if lowerCaseP && 65 ≤ c && c ≤ 90 then c + 32 else c

/-- The first loop, which skips spaces. -/
def baseLoop (lowerCaseP : Bool) : List UInt8 → Nat → Prog (Buffer UInt8) Nat
  | [], j => pure j
  | c :: filename, j =>
      if c = 32 then baseLoop lowerCaseP filename j
      else do
        store j (lowered lowerCaseP c)
        baseLoop lowerCaseP filename (j + 1)

/-- The second loop. -/
def suffixLoop (lowerCaseP : Bool) (filename : List UInt8) (j : Nat) : Prog (Buffer UInt8) Nat :=
  storeBytes (filename.map (lowered lowerCaseP)) j

/-- `fat32_dir_filename` with its branch for long names as a parameter.  The value
is the number of entries in front of the one that is returned. -/
def fat32DirFilename (long : Prog (Buffer UInt8) Nat) (d : FatDir) : Prog (Buffer UInt8) Nat := do
  Prog.assertThat (!fat32DirentFree d) "!fat32_dirent_free(d)"
  if d.attr = FAT32_LONG_FILE_NAME then long
  else
    Prog.assertThat (isAttr d.attr FAT32_DIR || isAttr d.attr FAT32_ARCHIVE ||
      isAttr d.attr FAT32_VOLUME_LABEL) "is_attr"
    let lowerCaseP := d.reserved0 == 0x18
    let j ← baseLoop lowerCaseP (d.filename.take 8) 0
    store j 46
    let j ← suffixLoop lowerCaseP (d.filename.drop 8) (j + 1)
    store j 0
    pure 0

/-! ## Trimmed names -/

/-- Without the spaces at the end. -/
def trimmed (base : List UInt8) : List UInt8 := base.rdropWhile (· == 32)

/-- Without any space. -/
def squeezed (base : List UInt8) : List UInt8 := base.filter (· != 32)

/-- Characters without a space, padded with spaces. -/
def Padded (base : List UInt8) : Prop :=
  ∃ text k, base = text ++ List.replicate k 32 ∧ 32 ∉ text

/-- What is dropped at the end are spaces. -/
theorem exists_padding (base : List UInt8) : ∃ k, base = trimmed base ++ List.replicate k 32 := by
  refine ⟨(base.rtakeWhile (· == 32)).length, ?_⟩
  have spaces : base.rtakeWhile (· == 32) =
      List.replicate (base.rtakeWhile (· == 32)).length 32 := by
    rw [List.eq_replicate_iff]
    refine ⟨rfl, fun c mem => ?_⟩
    have space := List.mem_rtakeWhile_imp mem
    exact beq_iff_eq.mp space
  rw [← spaces, trimmed, List.rdropWhile_append_rtakeWhile]

theorem trimmed_concat_space (text : List UInt8) : trimmed (text ++ [32]) = trimmed text :=
  List.rdropWhile_concat_pos _ _ _ rfl

theorem trimmed_concat_other (text : List UInt8) {c : UInt8} (other : c ≠ 32) :
    trimmed (text ++ [c]) = text ++ [c] := by
  apply List.rdropWhile_concat_neg
  rwa [beq_iff_eq]

theorem trimmed_append_replicate (text : List UInt8) (k : Nat) :
    trimmed (text ++ List.replicate k 32) = trimmed text := by
  induction k with
  | zero => rw [List.replicate_zero, List.append_nil]
  | succ k ih =>
      rw [List.replicate_succ', ← List.append_assoc, trimmed_concat_space, ih]

theorem trimmed_of_not_mem {text : List UInt8} (none : 32 ∉ text) : trimmed text = text := by
  rw [trimmed, List.rdropWhile_eq_self_iff]
  intro nonempty space
  exact none (beq_iff_eq.mp space ▸ List.getLast_mem nonempty)

/-- The two ways to drop spaces agree exactly on padded names. -/
theorem trimmed_eq_squeezed_iff (base : List UInt8) :
    trimmed base = squeezed base ↔ Padded base := by
  constructor
  · intro same
    obtain ⟨k, split⟩ := exists_padding base
    refine ⟨trimmed base, k, split, ?_⟩
    rw [same]
    simp [squeezed]
  · rintro ⟨text, k, rfl, none⟩
    have kept : text.filter (· != 32) = text := by
      rw [List.filter_eq_self]
      intro c mem
      rw [bne_iff_ne]
      rintro rfl
      exact none mem
    rw [trimmed_append_replicate, trimmed_of_not_mem none, squeezed, List.filter_append, kept]
    simp

theorem length_trimmed_le (base : List UInt8) : (trimmed base).length ≤ base.length :=
  (List.rdropWhile_prefix _ _).length_le

/-- Names of the same length are told apart by their trimmed forms. -/
theorem trimmed_injective {first second : List UInt8} (length : first.length = second.length)
    (same : trimmed first = trimmed second) : first = second := by
  obtain ⟨j, one⟩ := exists_padding first
  obtain ⟨k, two⟩ := exists_padding second
  have lengths := length
  rw [one, two, same, List.length_append, List.length_append, List.length_replicate,
    List.length_replicate] at lengths
  rw [one, two, same, Nat.add_left_cancel lengths]

/-- The 8.3 form of a name. -/
def dotted (base suffix : List UInt8) : List UInt8 := base ++ 46 :: suffix

theorem dotted_injective {base1 base2 suffix1 suffix2 : List UInt8}
    (length : suffix1.length = suffix2.length)
    (same : dotted base1 suffix1 = dotted base2 suffix2) :
    base1 = base2 ∧ suffix1 = suffix2 := by
  obtain ⟨base, rest⟩ := List.append_inj' same (by simp [length])
  exact ⟨base, List.tail_eq_of_cons_eq rest⟩

/-! ## Runs of `fat32_dirent_name` -/

theorem storeBytes_written {old : Buffer UInt8} {p out : List UInt8}
    (room : out.length + p.length ≤ old.length) :
    storeBytes p out.length (written old out) =
      .ok (out ++ p).length (written old (out ++ p)) := by
  induction p generalizing out with
  | nil =>
      rw [List.append_nil]
      rfl
  | cons c p ih =>
      rw [List.length_cons] at room
      have rest := @ih (out ++ [c]) (by rw [List.length_append, List.length_singleton]; omega)
      rw [List.length_append, List.length_singleton, List.append_assoc] at rest
      rw [storeBytes, Prog.bind_of_ok (store_written (by omega) c), rest]
      rfl

theorem lastNonspace_written {old : Buffer UInt8} {values : List UInt8} {i : Nat}
    (within : i ≤ values.length) :
    lastNonspace i (written old values) =
      .ok (if trimmed (values.take i) = [] then none else some (trimmed (values.take i)).length)
        (written old values) := by
  induction i with
  | zero => rfl
  | succ i ih =>
      have stored : values[i]? = some values[i] := List.getElem?_eq_getElem within
      have split : values.take (i + 1) = values.take i ++ [values[i]] := by
        rw [List.take_add_one, stored]
        rfl
      rw [lastNonspace, Prog.bind_of_ok (Prog.get_apply _),
        Prog.bind_of_ok (fetch_written stored _), split]
      by_cases space : values[i] = 32
      · rw [if_neg (not_not_intro space), space, trimmed_concat_space]
        exact ih (Nat.le_of_succ_le within)
      · rw [if_pos space, trimmed_concat_other _ space,
          if_neg (List.append_ne_nil_of_right_ne_nil _ (List.cons_ne_nil _ [])), ← split,
          List.length_take, Nat.min_eq_left within]
        rfl

/-- An array that begins with some bytes may be seen as written up to fewer of them. -/
theorem written_of_start {old : Buffer UInt8} {values shorter : List UInt8}
    (front : shorter <+: values) :
    written (written old values) shorter = written old values := by
  obtain ⟨rest, rfl⟩ := front
  rw [written, written, List.map_append, List.append_assoc, List.drop_left' (List.length_map _)]

theorem stringAt_written {text : List UInt8} (noNul : 0 ∉ text) (old : Buffer UInt8) :
    stringAt (written old (text ++ [0])) = some text := by
  unfold written
  exact stringAt_append noNul _

/-- `to_8dot3` leaves the trimmed name in its array, whatever the array held. -/
theorem to8dot3_apply {p : List UInt8} (size : p.length = 11) (start : trimmed (p.take 8) ≠ [])
    {s : Buffer UInt8} (room : s.length = 14) :
    to8dot3 p s =
      .ok () (written (written s (p.take 8)) (dotted (trimmed (p.take 8)) (p.drop 8) ++ [0])) := by
  have base : (p.take 8).length = 8 := by
    rw [List.length_take]
    omega
  have suffix : (p.drop 8).length = 3 := by
    rw [List.length_drop, size]
  have filled : storeBytes (p.take 8) 0 s = .ok (p.take 8).length (written s (p.take 8)) := by
    have stored := @storeBytes_written s (p.take 8) [] (by rw [List.length_nil]; omega)
    rwa [List.nil_append] at stored
  have found := @lastNonspace_written s (p.take 8) 8 (Nat.le_of_eq base.symm)
  have whole : (p.take 8).take 8 = p.take 8 := List.take_of_length_le (Nat.le_of_eq base)
  rw [whole, if_neg start] at found
  have short := length_trimmed_le (p.take 8)
  -- from here on the array counts as written up to the trimmed name
  have again := @written_of_start s (p.take 8) (trimmed (p.take 8)) (List.rdropWhile_prefix _ _)
  have length : (written s (p.take 8)).length = 14 := by
    rw [length_written (by omega), room]
  generalize trimmed (p.take 8) = front at short found again ⊢
  generalize written s (p.take 8) = array at filled found again length ⊢
  have dot : store front.length 46 array = .ok () (written array (front ++ [46])) := by
    rw [← store_written (by omega) 46, again]
  have next : (front ++ [(46 : UInt8)]).length = front.length + 1 := by
    rw [List.length_append, List.length_singleton]
  have ended := @storeBytes_written array (p.drop 8) (front ++ [46]) (by omega)
  rw [next, List.append_assoc] at ended
  have room' : (front ++ [46] ++ p.drop 8).length < array.length := by
    rw [List.length_append]
    omega
  rw [List.append_assoc] at room'
  rw [to8dot3, Prog.bind_of_ok filled, Prog.bind_of_ok found]
  dsimp only
  rw [Prog.bind_of_ok dot, Prog.bind_of_ok ended]
  exact store_written room' 0

theorem strcpy_eq_copyString {text : List UInt8} (noNul : 0 ∉ text) (rest : Buffer UInt8)
    (dst : Nat) :
    strcpy dst ((text ++ [0]).map some ++ rest) = copyString dst (text ++ [0]) := by
  induction text generalizing dst with
  | nil => simp [strcpy, copyString]
  | cons c text ih =>
      obtain ⟨named, noNul⟩ := not_or.mp (List.mem_cons.not.mp noNul)
      simp [strcpy, copyString, Ne.symm named, ← ih noNul]

/-! ## Names of live entries -/

namespace FatDir

variable (d : FatDir)

def base : List UInt8 := d.filename.take 8

def suffix : List UInt8 := d.filename.drop 8

theorem length_base : d.base.length = 8 := by
  rw [base, List.length_take, d.size]
  rfl

theorem length_suffix : d.suffix.length = 3 := by
  rw [suffix, List.length_drop, d.size]

/-- An entry in use with a short name. -/
structure Live : Prop where
  used : fat32DirentFree d = false
  attr : isAttr d.attr FAT32_DIR || isAttr d.attr FAT32_ARCHIVE ||
    isAttr d.attr FAT32_VOLUME_LABEL
  noNul : 0 ∉ d.filename
  named : d.filename.head? ≠ some 32
  reserved : d.reserved0 ≠ 0x18

variable {d}

theorem Live.trimmed_ne_nil (live : d.Live) : trimmed d.base ≠ [] := by
  intro empty
  have spaces := List.rdropWhile_eq_nil_iff.mp empty
  have size := d.size
  have named := live.named
  unfold base at spaces
  cases filename : d.filename with
  | nil =>
      rw [filename] at size
      cases size
  | cons c rest =>
      rw [filename] at spaces named
      have first := spaces c List.mem_cons_self
      exact named (congrArg some (beq_iff_eq.mp first))

/-- The attribute of a long name is none of the three. -/
theorem Live.short (live : d.Live) : d.attr ≠ FAT32_LONG_FILE_NAME := by
  intro long
  have attr := live.attr
  rw [long] at attr
  exact absurd attr (by decide)

theorem Live.nul_not_mem_dotted (live : d.Live) {front : List UInt8}
    (part : ∀ c ∈ front, c ∈ d.base) : 0 ∉ dotted front d.suffix := by
  intro mem
  rcases List.mem_append.mp mem with inFront | behind
  · exact live.noNul (List.mem_of_mem_take (part 0 inFront))
  · rcases List.mem_cons.mp behind with dot | inSuffix
    · exact absurd dot (by decide)
    · exact live.noNul (List.mem_of_mem_drop inSuffix)

theorem Live.nul_not_mem_trimmed (live : d.Live) : 0 ∉ dotted (trimmed d.base) d.suffix :=
  live.nul_not_mem_dotted fun _ mem => (List.rdropWhile_prefix _ _).subset mem

theorem Live.nul_not_mem_squeezed (live : d.Live) : 0 ∉ dotted (squeezed d.base) d.suffix :=
  live.nul_not_mem_dotted fun _ mem => List.mem_of_mem_filter mem

end FatDir

/-- On every array of 14 bytes the routine leaves the text as a string, and stores
nothing outside. -/
def Renders {α : Type} (routine : Prog (Buffer UInt8) α) (text : List UInt8) : Prop :=
  ∀ array : Buffer UInt8, array.length = 14 →
    ∃ value after, routine array = .ok value after ∧ stringAt after = some text

theorem Renders.unique {α : Type} {routine : Prog (Buffer UInt8) α} {text other : List UInt8}
    (renders : Renders routine text) (also : Renders routine other) : text = other := by
  obtain ⟨value, after, ran, here⟩ := renders (uninit 14) List.length_replicate
  obtain ⟨value', after', ran', there⟩ := also (uninit 14) List.length_replicate
  rw [ran] at ran'
  cases ran'
  rw [here] at there
  exact Option.some.inj there

variable {d : FatDir}

theorem to8dot3_renders (live : d.Live) :
    Renders (to8dot3 d.filename) (dotted (trimmed d.base) d.suffix) := by
  intro s room
  exact ⟨(), _, to8dot3_apply d.size live.trimmed_ne_nil room,
    stringAt_written live.nul_not_mem_trimmed _⟩

theorem length_dotted (front : List UInt8) :
    (dotted front d.suffix).length = front.length + 4 := by
  rw [dotted, List.length_append, List.length_cons, d.length_suffix]

theorem fat32DirentName_renders (live : d.Live) {s : Buffer UInt8} (room : s.length = 14) :
    Renders (fat32DirentName s d) (dotted (trimmed d.base) d.suffix) := by
  intro name roomName
  have short := length_trimmed_le d.base
  have length := d.length_base
  have named := Prog.locally_of_ok (to8dot3_apply d.size live.trimmed_ne_nil room) name
  have noNul := live.nul_not_mem_trimmed
  have copied := @copyString_fits _ noNul name [] (by
    rw [List.nil_append, length_dotted]
    omega)
  refine ⟨(), _, ?_, stringAt_written noNul name⟩
  rw [fat32DirentName, Prog.bind_of_ok named]
  exact (congrFun (strcpy_eq_copyString noNul _ 0) name).trans copied

theorem baseLoop_written {old : Buffer UInt8} {base out : List UInt8}
    (room : out.length + base.length ≤ old.length) :
    baseLoop false base out.length (written old out) =
      .ok (out ++ squeezed base).length (written old (out ++ squeezed base)) := by
  induction base generalizing out with
  | nil =>
      rw [squeezed, List.filter_nil, List.append_nil]
      rfl
  | cons c base ih =>
      rw [List.length_cons] at room
      by_cases space : c = 32
      · subst space
        rw [baseLoop, if_pos rfl]
        exact ih (by omega)
      · have kept : squeezed (c :: base) = c :: squeezed base :=
          List.filter_cons_of_pos (by simpa using space)
        have rest := @ih (out ++ [c]) (by rw [List.length_append, List.length_singleton]; omega)
        rw [List.length_append, List.length_singleton, List.append_assoc] at rest
        have same : lowered false c = c := rfl
        rw [baseLoop, if_neg space, same, Prog.bind_of_ok (store_written (by omega) c), rest, kept]
        rfl

theorem fat32DirFilename_renders (long : Prog (Buffer UInt8) Nat) (live : d.Live) :
    Renders (fat32DirFilename long d) (dotted (squeezed d.base) d.suffix) := by
  intro name room
  have length := d.length_base
  have suffix := d.length_suffix
  have few : (squeezed d.base).length ≤ 8 := length ▸ List.length_filter_le _ _
  have upper : (d.reserved0 == 0x18) = false := beq_eq_false_iff_ne.mpr live.reserved
  have noNul := live.nul_not_mem_squeezed
  have base := @baseLoop_written name d.base [] (by rw [List.length_nil]; omega)
  rw [List.nil_append, List.length_nil, written_nil] at base
  generalize squeezed d.base = front at few base noNul ⊢
  have dot := store_written (by omega : front.length < name.length) 46
  have next : (front ++ [(46 : UInt8)]).length = front.length + 1 := by
    rw [List.length_append, List.length_singleton]
  have ended := @storeBytes_written name d.suffix (front ++ [46]) (by omega)
  rw [next, List.append_assoc] at ended
  have same : ∀ j, suffixLoop false d.suffix j = storeBytes d.suffix j := by
    intro j
    have kept : lowered false = id := rfl
    rw [suffixLoop, kept, List.map_id]
  have room' : (front ++ [46] ++ d.suffix).length < name.length := by
    rw [List.length_append]
    omega
  rw [List.append_assoc] at room'
  refine ⟨0, _, ?_, stringAt_written noNul name⟩
  rw [fat32DirFilename, Prog.bind_of_ok (Prog.assertThat_of _ _ (by rw [live.used]; rfl)),
    if_neg live.short, Prog.bind_of_ok (Prog.assertThat_of _ _ live.attr), upper]
  change (baseLoop false d.base 0 >>= fun j => do
    store j 46
    let j ← suffixLoop false d.suffix (j + 1)
    store j 0
    pure 0) name = _
  rw [Prog.bind_of_ok base, Prog.bind_of_ok dot, same, Prog.bind_of_ok ended,
    Prog.bind_of_ok (store_written room' 0)]
  rfl

/-! ## The two routines compared -/

/-- The three routines leave the same text, within 14 bytes. -/
def SameName (long : Prog (Buffer UInt8) Nat) (d : FatDir) : Prop :=
  ∃ text, Renders (to8dot3 d.filename) text ∧
    (∀ s : Buffer UInt8, s.length = 14 → Renders (fat32DirentName s d) text) ∧
    Renders (fat32DirFilename long d) text

/-- The routine leaves no text for both entries. -/
def ToldApart {α : Type} (routine : FatDir → Prog (Buffer UInt8) α) (d1 d2 : FatDir) : Prop :=
  ∀ text, ¬ (Renders (routine d1) text ∧ Renders (routine d2) text)

/-- The routines agree on both entries, and each tells entries with different raw
names apart. -/
structure NamesAgree (long : Prog (Buffer UInt8) Nat) (d1 d2 : FatDir) : Prop where
  first : SameName long d1
  second : SameName long d2
  direntName : d1.filename ≠ d2.filename → ToldApart (fun d => to8dot3 d.filename) d1 d2
  dirFilename : d1.filename ≠ d2.filename → ToldApart (fat32DirFilename long) d1 d2

theorem sameName_iff (long : Prog (Buffer UInt8) Nat) (live : d.Live) :
    SameName long d ↔ Padded d.base := by
  rw [← trimmed_eq_squeezed_iff]
  constructor
  · rintro ⟨text, one, -, other⟩
    have left := one.unique (to8dot3_renders live)
    have right := other.unique (fat32DirFilename_renders long live)
    exact (dotted_injective rfl (left.symm.trans right)).1
  · intro same
    refine ⟨_, to8dot3_renders live, fun s room => fat32DirentName_renders live room, ?_⟩
    rw [same]
    exact fat32DirFilename_renders long live

/-- The trimmed name and the suffix determine the raw name. -/
theorem filename_eq_of_dotted {d1 d2 : FatDir}
    (same : dotted (trimmed d1.base) d1.suffix = dotted (trimmed d2.base) d2.suffix) :
    d1.filename = d2.filename := by
  obtain ⟨front, rest⟩ :=
    dotted_injective (d1.length_suffix.trans d2.length_suffix.symm) same
  have base := trimmed_injective (d1.length_base.trans d2.length_base.symm) front
  rw [← List.take_append_drop 8 d1.filename, ← List.take_append_drop 8 d2.filename]
  exact congrArg₂ (· ++ ·) base rest

/-- On two live entries the routines agree and tell different names apart if and
only if neither has a space in front of another character of its base. -/
theorem short_names_agree_iff (long : Prog (Buffer UInt8) Nat) {d1 d2 : FatDir} (live1 : d1.Live)
    (live2 : d2.Live) : NamesAgree long d1 d2 ↔ Padded d1.base ∧ Padded d2.base := by
  constructor
  · intro agree
    exact ⟨(sameName_iff long live1).mp agree.first, (sameName_iff long live2).mp agree.second⟩
  · rintro ⟨padded1, padded2⟩
    refine ⟨(sameName_iff long live1).mpr padded1, (sameName_iff long live2).mpr padded2, ?_, ?_⟩
    · rintro differ text ⟨one, other⟩
      have left := one.unique (to8dot3_renders live1)
      have right := other.unique (to8dot3_renders live2)
      exact differ (filename_eq_of_dotted (left.symm.trans right))
    · rintro differ text ⟨one, other⟩
      have left := one.unique (fat32DirFilename_renders long live1)
      have right := other.unique (fat32DirFilename_renders long live2)
      rw [← (trimmed_eq_squeezed_iff _).mpr padded1] at left
      rw [← (trimmed_eq_squeezed_iff _).mpr padded2] at right
      exact differ (filename_eq_of_dotted (left.symm.trans right))

/-- The file `A.TXT`. -/
def plainA : FatDir := ⟨[65, 32, 32, 32, 32, 32, 32, 32, 84, 88, 84], 0x20, 0, rfl⟩

/-- The file `A B.TXT`. -/
def spacedAB : FatDir := ⟨[65, 32, 66, 32, 32, 32, 32, 32, 84, 88, 84], 0x20, 0, rfl⟩

/-- The file `AB.TXT`. -/
def plainAB : FatDir := ⟨[65, 66, 32, 32, 32, 32, 32, 32, 84, 88, 84], 0x20, 0, rfl⟩

theorem plainA_live : plainA.Live := ⟨rfl, rfl, by decide, by decide, by decide⟩

theorem spacedAB_live : spacedAB.Live := ⟨rfl, rfl, by decide, by decide, by decide⟩

theorem plainAB_live : plainAB.Live := ⟨rfl, rfl, by decide, by decide, by decide⟩

theorem short_names_agree_iff_of_plain : NamesAgree (throw .blocked) plainA plainAB :=
  (short_names_agree_iff (throw .blocked) plainA_live plainAB_live).mpr
    ⟨⟨[65], 7, rfl, by decide⟩, ⟨[65, 66], 6, rfl, by decide⟩⟩

/-- `to_8dot3` keeps the space of `A B.TXT`, `fat32_dir_filename` drops it and prints
the name of another file. -/
theorem short_names_differ :
    ¬ ∀ (long : Prog (Buffer UInt8) Nat) (d1 d2 : FatDir), d1.Live → d2.Live →
      NamesAgree long d1 d2 := by
  intro all
  have agree := all (throw .blocked) spacedAB plainAB spacedAB_live plainAB_live
  have spaced := (trimmed_eq_squeezed_iff _).mpr ((sameName_iff _ spacedAB_live).mp agree.first)
  exact absurd spaced (by decide)

end Cs140e.Fat32
