import Cs140e.Library.LittleEndian
import Cs140e.Library.Prog

/-!
# Transfers of an exact number of bytes

A translation of `read-exact.c` and `write-exact.c`, and of the four functions
of `fake-pi.c` through which all of its messages go.  The system may move fewer
bytes than it is asked for; both routines make one call and panic when that one
does not move everything.
-/

namespace Cs140e.Libunix

open Cs140e.Library

/-! ## The calls of the system -/

/-- What the system does in a call of `read` or `write`. -/
inductive Transfer where
  | failed
  | moved (count : Nat)
  deriving DecidableEq, Repr

/-- A file descriptor: the bytes still to come, the bytes that were written and
what the system does in the next calls. -/
structure Fd where
  input : List UInt8
  output : List UInt8
  transfers : List Transfer
  deriving DecidableEq, Repr

/-- `read(fd, data, n)`; the memory at `data` is handed back with the result. -/
def read (data : List UInt8) (n : UInt32) : Prog Fd (Int × List UInt8) := fun fd =>
  match fd.transfers with
  | [] => .error .blocked fd
  | .failed :: transfers => .ok (-1, data) { fd with transfers }
  | .moved count :: transfers =>
      if n.toNat < count ∨ fd.input.length < count ∨ data.length < count then
        .error (.undefined "read moves more than there is or was asked for") fd
      else
        .ok (count, fd.input.take count ++ data.drop count)
          { fd with input := fd.input.drop count, transfers }

/-- `write(fd, data, n)`. -/
def write (data : List UInt8) (n : UInt32) : Prog Fd Int := fun fd =>
  match fd.transfers with
  | [] => .error .blocked fd
  | .failed :: transfers => .ok (-1) { fd with transfers }
  | .moved count :: transfers =>
      if n.toNat < count ∨ data.length < count then
        .error (.undefined "write moves more than there is or was asked for") fd
      else .ok count { fd with output := fd.output ++ data.take count, transfers }

/-! ## The two routines -/

def readExactCanFail (data : List UInt8) (n : UInt32) : Prog Fd (Int32 × List UInt8) := do
  Prog.assertThat (n != 0) "n"
  let (result, data) ← read data n
  let got := Int32.ofInt result
  if got < 0 then throw (.panic "read_exact failed")
  if got.toUInt32 ≠ n then pure (0, data)
  else pure (n.toInt32, data)

def readExact (data : List UInt8) (n : UInt32) : Prog Fd (Int32 × List UInt8) := do
  let (got, data) ← readExactCanFail data n
  if got = 0 then throw (.panic "read_exact of %d bytes failed\n")
  pure (n.toInt32, data)

def writeExactCanFail (data : List UInt8) (n : UInt32) : Prog Fd Int32 := do
  Prog.assertThat (n != 0) "n"
  let got := Int32.ofInt (← write data n)
  if got < 0 then throw (.panic "write_exact failed")
  if got.toUInt32 ≠ n then pure 0
  else pure n.toInt32

def writeExact (data : List UInt8) (n : UInt32) : Prog Fd Int32 := do
  if (← writeExactCanFail data n) = 0 then throw (.panic "write_exact of %d bytes failed\n")
  pure n.toInt32

/-! ## The messages of `fake-pi.c` -/

def putUint8 (b : UInt8) : Prog Fd Unit := do
  let _ ← writeExact [b] 1

def putUint32 (u : UInt32) : Prog Fd Unit := do
  let _ ← writeExact (LittleEndian.bytesOf u) 4

/-- The uninitialised local is a parameter. -/
def getUint8 (b : UInt8) : Prog Fd UInt8 := do
  let (_, data) ← readExact [b] 1
  match data with
  | [b] => pure b
  | _ => throw (.undefined "b has another size")

def getUint32 (u : UInt32) : Prog Fd UInt32 := do
  let (_, data) ← readExact (LittleEndian.bytesOf u) 4
  pure (LittleEndian.wordOf data)

/-! ## One transfer -/

/-- The results of the calls that together move `n` bytes, when every call asks
for what is left and moves at least a byte of it. -/
structure Segments (n : Nat) where
  counts : List Nat
  positive : ∀ count ∈ counts, 0 < count
  total : counts.sum = n

namespace Segments

variable {n : Nat}

theorem exists_first (segments : Segments n) (some : 0 < n) :
    ∃ first rest, segments.counts = first :: rest ∧ 0 < first ∧ first ≤ n ∧
      (first = n ↔ segments.counts = [n]) := by
  obtain ⟨counts, positive, total⟩ := segments
  dsimp only
  cases counts with
  | nil => exact absurd total.symm (Nat.ne_of_gt some)
  | cons first rest =>
      have sum : first + rest.sum = n := total
      refine ⟨first, rest, rfl, positive first (List.mem_cons_self ..), by omega, ?_⟩
      constructor
      · rintro rfl
        cases rest with
        | nil => rfl
        | cons second rest =>
            have more := positive second (List.mem_cons_of_mem _ (List.mem_cons_self ..))
            rw [List.sum_cons] at sum
            omega
      · intro whole
        exact (List.cons.inj whole).1

end Segments

section

variable {n : UInt32} {data : List UInt8} {fd : Fd} {count : Nat} {later : List Transfer}

/-- Below 2^31 the count survives in an `int`. -/
theorem got_of_small (small : count < 2 ^ 31) :
    ¬ Int32.ofInt count < 0 ∧ (Int32.ofInt count).toUInt32 = UInt32.ofNat count := by
  have value : (Int32.ofInt count).toInt = count :=
    Int32.toInt_ofInt_of_le (by omega) (by omega)
  constructor
  · rw [Int32.lt_iff_toInt_lt, value]
    exact Int.not_lt.mpr (Int.natCast_nonneg count)
  · rfl

theorem read_moved (next : fd.transfers = .moved count :: later) (asked : count ≤ n.toNat)
    (there : count ≤ fd.input.length) (room : count ≤ data.length) :
    read data n fd = .ok (count, fd.input.take count ++ data.drop count)
      ⟨fd.input.drop count, fd.output, later⟩ := by
  rw [read, next]
  dsimp only
  rw [if_neg (by omega)]

theorem write_moved (next : fd.transfers = .moved count :: later) (asked : count ≤ n.toNat)
    (room : count ≤ data.length) :
    write data n fd = .ok count ⟨fd.input, fd.output ++ data.take count, later⟩ := by
  rw [write, next]
  dsimp only
  rw [if_neg (by omega)]

theorem toInt32_ne_zero (some : n ≠ 0) : n.toInt32 ≠ 0 := fun zero =>
  some (congrArg Int32.toUInt32 zero)

theorem ofNat_ne (small : count < 2 ^ 31) (short : count ≠ n.toNat) : UInt32.ofNat count ≠ n := by
  rintro rfl
  rw [UInt32.toNat_ofNat'] at short
  omega

theorem readExactCanFail_moved (some : n ≠ 0) (small : n.toNat < 2 ^ 31)
    (next : fd.transfers = .moved count :: later) (asked : count ≤ n.toNat)
    (there : count ≤ fd.input.length) (room : count ≤ data.length) :
    readExactCanFail data n fd =
      .ok (if count = n.toNat then n.toInt32 else 0,
        fd.input.take count ++ data.drop count) ⟨fd.input.drop count, fd.output, later⟩ := by
  obtain ⟨notNegative, bits⟩ := got_of_small (Nat.lt_of_le_of_lt asked small)
  rw [readExactCanFail, Prog.bind_of_ok (Prog.assertThat_of _ _ (bne_iff_ne.mpr some)),
    Prog.bind_of_ok (read_moved next asked there room)]
  dsimp only
  rw [if_neg notNegative, bits]
  by_cases whole : count = n.toNat
  · rw [if_pos whole, whole, UInt32.ofNat_toNat, if_neg (not_not_intro rfl)]
    rfl
  · rw [if_neg whole, if_pos (ofNat_ne (by omega) whole)]
    rfl

/-- `read_exact` returns if and only if the call moves everything. -/
theorem readExact_moved (some : n ≠ 0) (small : n.toNat < 2 ^ 31)
    (next : fd.transfers = .moved count :: later) (asked : count ≤ n.toNat)
    (there : count ≤ fd.input.length) (room : count ≤ data.length) :
    readExact data n fd =
      if count = n.toNat then
        .ok (n.toInt32, fd.input.take count ++ data.drop count)
          ⟨fd.input.drop count, fd.output, later⟩
      else
        .error (.panic "read_exact of %d bytes failed\n")
          ⟨fd.input.drop count, fd.output, later⟩ := by
  rw [readExact, Prog.bind_of_ok (readExactCanFail_moved some small next asked there room)]
  dsimp only
  by_cases whole : count = n.toNat
  · rw [if_pos whole, if_pos whole, if_neg (toInt32_ne_zero some)]
    rfl
  · rw [if_neg whole, if_neg whole, if_pos rfl]
    rfl

theorem writeExactCanFail_moved (some : n ≠ 0) (small : n.toNat < 2 ^ 31)
    (next : fd.transfers = .moved count :: later) (asked : count ≤ n.toNat)
    (room : count ≤ data.length) :
    writeExactCanFail data n fd = .ok (if count = n.toNat then n.toInt32 else 0)
      ⟨fd.input, fd.output ++ data.take count, later⟩ := by
  obtain ⟨notNegative, bits⟩ := got_of_small (Nat.lt_of_le_of_lt asked small)
  rw [writeExactCanFail, Prog.bind_of_ok (Prog.assertThat_of _ _ (bne_iff_ne.mpr some)),
    Prog.bind_of_ok (write_moved next asked room)]
  dsimp only
  rw [if_neg notNegative, bits]
  by_cases whole : count = n.toNat
  · rw [if_pos whole, whole, UInt32.ofNat_toNat, if_neg (not_not_intro rfl)]
    rfl
  · rw [if_neg whole, if_pos (ofNat_ne (by omega) whole)]
    rfl

/-- `write_exact` returns if and only if the call moves everything. -/
theorem writeExact_moved (some : n ≠ 0) (small : n.toNat < 2 ^ 31)
    (next : fd.transfers = .moved count :: later) (asked : count ≤ n.toNat)
    (room : count ≤ data.length) :
    writeExact data n fd =
      if count = n.toNat then
        .ok n.toInt32 ⟨fd.input, fd.output ++ data.take count, later⟩
      else
        .error (.panic "write_exact of %d bytes failed\n")
          ⟨fd.input, fd.output ++ data.take count, later⟩ := by
  rw [writeExact, Prog.bind_of_ok (writeExactCanFail_moved some small next asked room)]
  by_cases whole : count = n.toNat
  · rw [if_pos whole, if_pos whole, if_neg (toInt32_ne_zero some)]
    rfl
  · rw [if_neg whole, if_neg whole, if_pos rfl]
    rfl

/-- All that a call of `write` may write is a front part of its data. -/
theorem write_left (data : List UInt8) (n : UInt32) (fd : Fd) :
    ∃ part, part <+: data ∧ (left (write data n fd)).output = fd.output ++ part := by
  unfold write
  split
  · exact ⟨[], List.nil_prefix, (List.append_nil _).symm⟩
  · exact ⟨[], List.nil_prefix, (List.append_nil _).symm⟩
  · split
    · exact ⟨[], List.nil_prefix, (List.append_nil _).symm⟩
    · exact ⟨_, List.take_prefix _ data, rfl⟩

/-- A call of `write_exact` leaves what its one call of `write` has left. -/
theorem writeExact_left (data : List UInt8) (n : UInt32) (fd : Fd) :
    ∃ part, part <+: data ∧ (left (writeExact data n fd)).output = fd.output ++ part := by
  by_cases zero : n = 0
  · subst zero
    exact ⟨[], List.nil_prefix, (List.append_nil _).symm⟩
  · have kept : left (writeExact data n fd) = left (write data n fd) := by
      rw [writeExact]
      refine (Prog.left_bind (fun _ => ?_) fd).trans ?_
      · exact .ite (.bind (.throw _) fun _ => .pure _) (.pure _)
      · rw [writeExactCanFail, Prog.bind_of_ok (Prog.assertThat_of _ _ (bne_iff_ne.mpr zero))]
        refine Prog.left_bind (fun _ => ?_) fd
        exact .ite (.bind (.throw _) fun _ => .ite (.pure _) (.pure _))
          (.ite (.pure _) (.pure _))
    rw [kept]
    exact write_left data n fd

/-- What `write_exact` has written when it returns. -/
theorem writeExact_returned {data : List UInt8} {n : UInt32} {fd after : Fd} {result : Int32}
    (returned : writeExact data n fd = .ok result after) :
    after.output = fd.output ++ data.take n.toNat := by
  obtain ⟨got, first, canFail, rest⟩ := Prog.ok_of_bind_ok returned
  obtain ⟨_, second, asserts, calls⟩ := Prog.ok_of_bind_ok canFail
  obtain ⟨_, rfl⟩ := Prog.holds_of_assertThat_ok asserts
  obtain ⟨count, third, wrote, tests⟩ := Prog.ok_of_bind_ok calls
  have whole : ¬ Int32.ofInt count < 0 ∧ (Int32.ofInt count).toUInt32 = n ∧ third = after := by
    split at rest
    · cases rest
    · rename_i nonzero
      cases rest
      dsimp only at tests
      split at tests
      · cases tests
      · rename_i notNegative
        split at tests
        · cases tests
          exact absurd rfl nonzero
        · rename_i moved
          cases tests
          exact ⟨notNegative, not_not.mp moved, rfl⟩
  obtain ⟨notNegative, moved, rfl⟩ := whole
  unfold write at wrote
  split at wrote
  · cases wrote
  · cases wrote
    exact absurd (by decide) notNegative
  · rename_i written transfers next
    split at wrote
    · cases wrote
    · rename_i inside
      cases wrote
      have value : UInt32.ofNat written = n := moved
      have same : written = n.toNat := by
        rw [← value, UInt32.toNat_ofNat', Nat.mod_eq_of_lt]
        have bound := n.toNat_lt
        omega
      rw [same]

end

/-! ## Messages -/

section

variable {fd : Fd} {later : List Transfer}

/-- A call for one byte that moves anything moves everything. -/
theorem putUint8_moved (next : fd.transfers = .moved 1 :: later) (b : UInt8) :
    putUint8 b fd = .ok () ⟨fd.input, fd.output ++ [b], later⟩ := by
  have written : writeExact [b] 1 fd = _ :=
    writeExact_moved (by decide) (by decide) next (by decide) (Nat.le_refl 1)
  rw [if_pos (by decide)] at written
  rw [putUint8, Prog.bind_of_ok written]
  rfl

theorem getUint8_moved (next : fd.transfers = .moved 1 :: later) {b : UInt8}
    {rest : List UInt8} (there : fd.input = b :: rest) (stale : UInt8) :
    getUint8 stale fd = .ok b ⟨rest, fd.output, later⟩ := by
  have enough : 1 ≤ fd.input.length := by
    rw [there]
    exact Nat.succ_pos _
  have got : readExact [stale] 1 fd = _ :=
    readExact_moved (by decide) (by decide) next (by decide) enough (Nat.le_refl 1)
  rw [if_pos (by decide), there] at got
  rw [getUint8, Prog.bind_of_ok got]
  rfl

theorem putUint32_moved (next : fd.transfers = .moved 4 :: later) (u : UInt32) :
    putUint32 u fd = .ok () ⟨fd.input, fd.output ++ LittleEndian.bytesOf u, later⟩ := by
  have written : writeExact (LittleEndian.bytesOf u) 4 fd = _ :=
    writeExact_moved (by decide) (by decide) next (by decide) (Nat.le_refl 4)
  rw [if_pos (by decide)] at written
  rw [putUint32, Prog.bind_of_ok written]
  rfl

/-- What `put_uint32` wrote is what `get_uint32` returns at the other end. -/
theorem getUint32_moved (next : fd.transfers = .moved 4 :: later) {u : UInt32}
    {rest : List UInt8} (there : fd.input = LittleEndian.bytesOf u ++ rest) (stale : UInt32) :
    getUint32 stale fd = .ok u ⟨rest, fd.output, later⟩ := by
  have enough : 4 ≤ fd.input.length := by
    rw [there, List.length_append, LittleEndian.length_bytesOf]
    exact Nat.le_add_right 4 _
  have got : readExact (LittleEndian.bytesOf stale) 4 fd = _ :=
    readExact_moved (by decide) (by decide) next (by decide) enough (Nat.le_refl 4)
  rw [if_pos (by decide), there] at got
  rw [getUint32, Prog.bind_of_ok got]
  exact congrArg (EStateM.Result.ok · _) (LittleEndian.wordOf_bytesOf u)

end

/-! ## Short transfers -/

/-- For every way in which the system may split a transfer of `n` bytes: each of
the two routines makes the first call only.  If it moves everything they return
`n`, having moved exactly the next `n` bytes; if it does not they panic, having
moved what it moved. -/
theorem exact_transfers_make_one_call {n : UInt32} (some : n ≠ 0) (small : n.toNat < 2 ^ 31)
    (segments : Segments n.toNat) (later : List Transfer) {data input : List UInt8}
    (output : List UInt8) (enough : n.toNat ≤ input.length) (room : n.toNat ≤ data.length) :
    ∃ first rest, segments.counts = first :: rest ∧
      readExact data n ⟨input, output, segments.counts.map .moved ++ later⟩ =
        (if segments.counts = [n.toNat] then
          .ok (n.toInt32, input.take n.toNat ++ data.drop n.toNat)
            ⟨input.drop n.toNat, output, later⟩
        else
          .error (.panic "read_exact of %d bytes failed\n")
            ⟨input.drop first, output, rest.map .moved ++ later⟩) ∧
      writeExact data n ⟨input, output, segments.counts.map .moved ++ later⟩ =
        (if segments.counts = [n.toNat] then
          .ok n.toInt32 ⟨input, output ++ data.take n.toNat, later⟩
        else
          .error (.panic "write_exact of %d bytes failed\n")
            ⟨input, output ++ data.take first, rest.map .moved ++ later⟩) := by
  have positive : 0 < n.toNat := Nat.pos_of_ne_zero fun zero => some (UInt32.toNat_inj.mp zero)
  obtain ⟨first, rest, counts, _, asked, whole⟩ := segments.exists_first positive
  have next : (⟨input, output, segments.counts.map .moved ++ later⟩ : Fd).transfers =
      .moved first :: (rest.map .moved ++ later) := by
    rw [counts]
    rfl
  have fits : first ≤ data.length := Nat.le_trans asked room
  have reads := readExact_moved some small next asked (Nat.le_trans asked enough) fits
  have writes := writeExact_moved some small next asked fits
  refine ⟨first, rest, counts, ?_⟩
  rw [reads, writes]
  by_cases all : first = n.toNat
  · have one := whole.mp all
    rw [if_pos all, if_pos all, if_pos one, if_pos one, all]
    rw [one] at counts
    cases counts
    exact ⟨rfl, rfl⟩
  · have several := mt whole.mpr all
    rw [if_neg all, if_neg all, if_neg several, if_neg several]
    exact ⟨rfl, rfl⟩

/-- Four bytes at once. -/
def atOnce : Segments 4 := ⟨[4], by decide, by decide⟩

theorem exact_transfers_make_one_call_of_atOnce :
    readExact [0, 0, 0, 0] 4 ⟨[1, 2, 3, 4, 5], [9], [.moved 4]⟩ =
        .ok (4, [1, 2, 3, 4]) ⟨[5], [9], []⟩ ∧
      writeExact [0, 0, 0, 0] 4 ⟨[1, 2, 3, 4, 5], [9], [.moved 4]⟩ =
        .ok 4 ⟨[1, 2, 3, 4, 5], [9, 0, 0, 0, 0], []⟩ := by
  have enough : (4 : UInt32).toNat ≤ ([1, 2, 3, 4, 5] : List UInt8).length := by decide
  have room : (4 : UInt32).toNat ≤ ([0, 0, 0, 0] : List UInt8).length := by decide
  obtain ⟨_, _, _, reads, writes⟩ :=
    @exact_transfers_make_one_call 4 (by decide) (by decide) atOnce [] _ _ [9] enough room
  exact ⟨reads, writes⟩

/-- Two bytes and two more. -/
def twice : Segments 4 := ⟨[2, 2], by decide, by decide⟩

/-- Both routines panic after the first two bytes. -/
theorem short_transfer_panics :
    stopped? (readExact [0, 0, 0, 0] 4 ⟨[1, 2, 3, 4], [], twice.counts.map .moved⟩) =
        some (.panic "read_exact of %d bytes failed\n") ∧
      stopped? (writeExact [1, 2, 3, 4] 4 ⟨[], [], twice.counts.map .moved⟩) =
        some (.panic "write_exact of %d bytes failed\n") := by
  decide +kernel

end Cs140e.Libunix
