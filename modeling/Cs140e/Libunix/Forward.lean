import Cs140e.Library.Stops
import Cs140e.Library.Takes
import Cs140e.Libunix.PiEcho
import Cs140e.Libunix.ReadExact

/-!
# From the unix side to the pi

The loop of `pi-echo.c` with both of its directions, `read-timeout.c` and
`can-read.c`.  What arrives on `unix_fd` is written to `pi_fd`.  The result of
`read` goes through an unsigned, so that a failed read comes back as a length.
-/

namespace Cs140e.Libunix

open Cs140e.Library

/-! ## The calls of the system -/

/-- What the system does in a call of `select` for one descriptor. -/
inductive Select where
  | failed
  | silent
  | ready
  deriving DecidableEq, Repr

/-- The result of a `read` of at most 4096 bytes; no bytes are the end of the
file. -/
inductive ReadResult where
  | failed
  | got (bytes : List UInt8) (fits : bytes.length ≤ 4096)

/-- What `read` returns. -/
def ReadResult.value : ReadResult → Int
  | .failed => -1
  | .got bytes _ => bytes.length

def ReadResult.bytes : ReadResult → List UInt8
  | .failed => []
  | .got bytes _ => bytes

/-- `unix_fd`: what the system does in the next calls. -/
structure UnixFd where
  selects : List Select
  reads : List ReadResult

/-- `can_read_timeout`; behind the results that are given nothing arrives. -/
def canReadTimeout : Prog (List Select) Bool
  | [] => .ok false []
  | .failed :: selects => .error (.panic "failed?") selects
  | .silent :: selects => .ok false selects
  | .ready :: selects => .ok true selects

/-- `read(fd, data, n)`; the memory at `data` is handed back with the result. -/
def readUnix (data : List UInt8) (n : UInt32) : Prog UnixFd (Int × List UInt8) := fun fd =>
  match fd.reads with
  | [] => .error .blocked fd
  | .failed :: reads => .ok (-1, data) { fd with reads }
  | .got bytes _ :: reads =>
      if n.toNat < bytes.length ∨ data.length < bytes.length then
        .error (.undefined "read moves more than was asked for") fd
      else
        .ok (bytes.length, bytes ++ data.drop bytes.length) { fd with reads }

def onSelects {α : Type} (program : Prog (List Select) α) : Prog UnixFd α :=
  Prog.onPart UnixFd.selects (fun selects fd => { fd with selects }) program

/-- `read_timeout`.  The test is made on an unsigned. -/
def readTimeout (data : List UInt8) (n : UInt32) : Prog UnixFd (Int32 × List UInt8) := do
  if !(← onSelects canReadTimeout) then
    pure (0, data)
  else
    let (result, data) ← readUnix data n
    let n := UInt32.ofInt result
    if n < 0 then throw (.panic "read failed")
    pure (n.toInt32, data)

/-! ## `pi_echo` -/

/-- What `pi_echo` acts on: the two descriptors, the results of `select` on
`pi_fd` and of `tty_gone`, and what it does with what comes from the pi. -/
structure PiEchoT where
  unix : UnixFd
  pi : Fd
  piSelects : List Select
  ttyGone : List Bool
  echo : EchoState

/-- `unsigned char buf[4096]` with what the stack holds. -/
structure Buffer where
  bytes : List UInt8
  size : bytes.length = 4096

namespace PiEchoT

variable {α : Type}

def onUnix (program : Prog UnixFd α) : Prog PiEchoT α :=
  Prog.onPart unix (fun unix e => { e with unix }) program

def onPi (program : Prog Fd α) : Prog PiEchoT α :=
  Prog.onPart pi (fun pi e => { e with pi }) program

def onPiSelects (program : Prog (List Select) α) : Prog PiEchoT α :=
  Prog.onPart piSelects (fun piSelects e => { e with piSelects }) program

def onEcho (program : Prog EchoState α) : Prog PiEchoT α :=
  Prog.onPart echo (fun echo e => { e with echo }) program

end PiEchoT

open PiEchoT

/-- `buf[n] = 0`. -/
def putNul {σ : Type} (buf : List UInt8) (n : Int32) : Prog σ (List UInt8) :=
  if 0 ≤ n.toInt ∧ n.toInt < buf.length then pure (buf.set n.toInt.toNat 0)
  else throw (.undefined "buf[n]")

/-- The first half of a round of `pi_echo`. -/
def forward (buf : List UInt8) : Prog PiEchoT (List UInt8) := do
  let (n, buf) ← onUnix (readTimeout buf 4096)
  if n ≠ 0 then
    let buf ← putNul buf n
    let _ ← onPi (writeExact buf n.toUInt32)
    pure buf
  else
    pure buf

def ttyIsGone : Prog PiEchoT Bool := fun e =>
  .ok (e.ttyGone.headD false) { e with ttyGone := e.ttyGone.tail }

/-- What is done with `n` bytes from the pi. -/
def echoBuf (buf : List UInt8) (n : Nat) : Prog EchoState Bool := do
  let buf := removeNonprint buf n
  modify fun state => { state with out := state.out ++ buf.takeWhile (· ≠ 0) }
  Prog.onPart EchoState.pos (fun pos state => { state with pos }) (piDone buf)

/-- The second half: whether `pi_echo` exits.  `portname` says if there is one. -/
def listen (portname : Bool) (buf : List UInt8) : Prog PiEchoT Bool := do
  if !(← onPiSelects canReadTimeout) then
    pure false
  else
    let (result, buf) ← onPi (read buf (4096 - 1))
    let n := Int32.ofInt result
    if n = 0 then
      if portname then ttyIsGone
      else pure true
    else if n < 0 then
      throw (.panic "pi connection closed.  cleaning up\n")
    else
      let buf ← putNul buf n
      onEcho (echoBuf buf n.toInt.toNat)

/-- A round of the loop of `pi_echo`. -/
def piEchoRound (portname : Bool) (buf : Buffer) : Prog PiEchoT Bool := do
  let buf ← forward buf.bytes
  listen portname buf

/-- The states `pi_echo` is in at the start of a round. -/
inductive Reached (portname : Bool) (start : PiEchoT) : PiEchoT → Prop where
  | refl : Reached portname start start
  | round {before after : PiEchoT} (reached : Reached portname start before) (buf : Buffer)
      (ran : piEchoRound portname buf before = .ok false after) : Reached portname start after

/-! ## What forwarding is for -/

/-- The next result of `read`. -/
def nextRead : Prog UnixFd ReadResult := fun fd =>
  match fd.reads with
  | [] => .error .blocked fd
  | result :: reads => .ok result { fd with reads }

/-- An error ends the program, nothing is done on a timeout or at the end of the
file, and else `write_exact` gets the bytes that were read and their number. -/
def relay : Prog PiEchoT Unit := do
  if ← onUnix (onSelects canReadTimeout) then
    match ← onUnix nextRead with
    | .failed => throw (.panic "read failed")
    | .got bytes _ =>
        if bytes ≠ [] then
          let _ ← onPi (writeExact bytes (.ofNat bytes.length))
  else
    pure ()

/-- The first half of a round does what `relay` does. -/
def Relays (buf : Buffer) (e : PiEchoT) : Prop :=
  (forward buf.bytes >>= fun _ => pure ()) e = relay e

/-- If the round reads from `unix_fd`, the read neither fails nor fills `buf`. -/
def LeavesRoom (e : PiEchoT) : Prop :=
  e.unix.selects.head? = some .ready → ∀ result ∈ e.unix.reads.head?,
    result.value ≠ -1 ∧ result.value ≠ 4096

/-! ## One round -/

section

variable {data other : List UInt8} {n : UInt32}

/-- `write` looks at the bytes it is asked to write only. -/
theorem write_congr (same : data.take n.toNat = other.take n.toNat)
    (room : n.toNat ≤ data.length) (otherRoom : n.toNat ≤ other.length) (fd : Fd) :
    write data n fd = write other n fd := by
  unfold write
  split
  · rfl
  · rfl
  · rename_i count transfers next
    by_cases more : n.toNat < count
    · rw [if_pos (.inl more), if_pos (.inl more)]
    · have taken : data.take count = other.take count := by
        have cut := congrArg (List.take count) same
        rwa [List.take_take, List.take_take, Nat.min_eq_left (Nat.le_of_not_lt more)] at cut
      rw [if_neg (by omega), if_neg (by omega), taken]

theorem writeExact_congr (same : data.take n.toNat = other.take n.toNat)
    (room : n.toNat ≤ data.length) (otherRoom : n.toNat ≤ other.length) (fd : Fd) :
    writeExact data n fd = writeExact other n fd := by
  have writes : write data n = write other n := funext (write_congr same room otherRoom)
  unfold writeExact writeExactCanFail
  rw [writes]

end

section

variable {count : Nat}

theorem ofInt_count (small : count ≤ 4096) : UInt32.ofInt count = UInt32.ofNat count := by
  have whole : ((count : Int) % 2 ^ 32).toNat = count := by omega
  rw [UInt32.ofInt, whole]

/-- A length that fits in `buf` survives the way through the unsigned. -/
theorem toInt_readTimeout (small : count ≤ 4096) :
    (UInt32.ofInt count).toInt32.toInt = count := by
  have value : (Int32.ofInt count).toInt = count :=
    Int32.toInt_ofInt_of_le (by omega) (by omega)
  rw [ofInt_count small]
  exact value

theorem putNul_of_room {σ : Type} {buf : List UInt8} (size : buf.length = 4096)
    (small : count < 4096) :
    (putNul buf (UInt32.ofInt count).toInt32 : Prog σ (List UInt8)) =
      pure (buf.set count 0) := by
  rw [putNul, toInt_readTimeout (Nat.le_of_lt small), if_pos (by omega), Int.toNat_natCast]

theorem putNul_behind {σ : Type} {buf : List UInt8} (size : buf.length = 4096) :
    (putNul buf (UInt32.ofInt (4096 : Nat)).toInt32 : Prog σ (List UInt8)) =
      throw (.undefined "buf[n]") := by
  rw [putNul, toInt_readTimeout (Nat.le_refl 4096), if_neg (by omega)]

end

section

variable {selects : List Select} {reads : List ReadResult} {bytes : List UInt8}

theorem readTimeout_got {buf : List UInt8} (size : buf.length = 4096)
    (fits : bytes.length ≤ 4096) :
    readTimeout buf 4096 ⟨.ready :: selects, .got bytes fits :: reads⟩ =
      .ok ((UInt32.ofInt bytes.length).toInt32, bytes ++ buf.drop bytes.length)
        ⟨selects, reads⟩ := by
  have ready : onSelects canReadTimeout ⟨.ready :: selects, .got bytes fits :: reads⟩ =
      .ok true ⟨selects, .got bytes fits :: reads⟩ := rfl
  have result : readUnix buf 4096 ⟨selects, .got bytes fits :: reads⟩ =
      .ok (bytes.length, bytes ++ buf.drop bytes.length) ⟨selects, reads⟩ := by
    have asked : (4096 : UInt32).toNat = 4096 := rfl
    rw [readUnix, asked]
    dsimp only
    rw [if_neg (by omega)]
  rw [readTimeout, Prog.bind_of_ok ready, Bool.not_true, if_neg Bool.false_ne_true,
    Prog.bind_of_ok result]
  dsimp only
  rw [if_neg (UInt32.not_lt_zero)]
  rfl

/-- What the first half does after the read. -/
theorem forward_got {buf : List UInt8} (size : buf.length = 4096) (fits : bytes.length ≤ 4096)
    {e : PiEchoT} (next : e.unix = ⟨.ready :: selects, .got bytes fits :: reads⟩) :
    forward buf e =
      (if (UInt32.ofInt bytes.length).toInt32 ≠ 0 then do
        let buf ← putNul (bytes ++ buf.drop bytes.length) (UInt32.ofInt bytes.length).toInt32
        let _ ← onPi (writeExact buf (UInt32.ofInt bytes.length).toInt32.toUInt32)
        pure buf
      else
        pure (bytes ++ buf.drop bytes.length) : Prog PiEchoT (List UInt8))
        { e with unix := ⟨selects, reads⟩ } := by
  have result := @readTimeout_got selects reads bytes buf size fits
  rw [← next] at result
  have got : onUnix (readTimeout buf 4096) e = .ok _ { e with unix := ⟨selects, reads⟩ } :=
    Prog.onPart_of_ok result
  rw [forward, Prog.bind_of_ok got]

end

/-! ## The result of one read -/

/-- `write_exact` goes beyond no array. -/
theorem writeExact_stops (data : List UInt8) (n : UInt32) :
    StopsOnly (· ≠ .undefined "buf[n]") (writeExact data n) := by
  have calls : StopsOnly (· ≠ .undefined "buf[n]") (write data n) := by
    intro fd after stop stopped
    unfold write at stopped
    split at stopped
    · cases stopped
      simp
    · cases stopped
    · split at stopped
      · cases stopped
        simp
      · cases stopped
  have canFail : StopsOnly (· ≠ .undefined "buf[n]") (writeExactCanFail data n) := by
    refine .bind (.assertThat _ (by simp)) fun _ _ _ _ => .bind calls fun _ got _ _ => ?_
    refine .ite (.bind (.throw (by simp)) fun _ _ _ _ => ?_) ?_
    · exact .ite (.pure 0) (.pure n.toInt32)
    · exact .ite (.pure 0) (.pure n.toInt32)
  refine .bind canFail fun _ got _ _ => ?_
  exact .ite (.bind (.throw (by simp)) fun _ _ _ _ => .pure n.toInt32) (.pure n.toInt32)

theorem onPi_stops {α : Type} {allowed : Stop → Prop} {program : Prog Fd α}
    (stops : StopsOnly allowed program) : StopsOnly allowed (onPi program) := by
  intro e after stop stopped
  cases ran : program e.pi with
  | ok value pi =>
      rw [onPi, Prog.onPart_of_ok ran] at stopped
      cases stopped
  | error reason pi =>
      rw [onPi, Prog.onPart_of_error ran] at stopped
      cases stopped
      exact stops ran

section

variable {selects : List Select} {reads : List ReadResult} {bytes : List UInt8}
  {fits : bytes.length ≤ 4096} {e : PiEchoT}

theorem canReadTimeout_ready (next : e.unix = ⟨.ready :: selects, reads⟩) :
    onUnix (onSelects canReadTimeout) e = .ok true { e with unix := ⟨selects, reads⟩ } := by
  apply Prog.onPart_of_ok
  rw [next]
  rfl

theorem relay_got (next : e.unix = ⟨.ready :: selects, .got bytes fits :: reads⟩) :
    relay e = (if bytes ≠ [] then do
        let _ ← onPi (writeExact bytes (.ofNat bytes.length))
        pure ()
      else pure () : Prog PiEchoT Unit) { e with unix := ⟨selects, reads⟩ } := by
  have result : onUnix nextRead { e with unix := ⟨selects, .got bytes fits :: reads⟩ } =
      .ok (.got bytes fits) { e with unix := ⟨selects, reads⟩ } := rfl
  rw [relay, Prog.bind_of_ok (canReadTimeout_ready next), if_pos rfl, Prog.bind_of_ok result]

theorem relay_failed (next : e.unix = ⟨.ready :: selects, .failed :: reads⟩) :
    relay e = .error (.panic "read failed") { e with unix := ⟨selects, reads⟩ } := by
  have result : onUnix nextRead { e with unix := ⟨selects, .failed :: reads⟩ } =
      .ok .failed { e with unix := ⟨selects, reads⟩ } := rfl
  rw [relay, Prog.bind_of_ok (canReadTimeout_ready next), if_pos rfl, Prog.bind_of_ok result]
  rfl

theorem forward_eof (buf : Buffer)
    (next : e.unix = ⟨.ready :: selects, .got [] (Nat.zero_le _) :: reads⟩) :
    forward buf.bytes e = .ok buf.bytes { e with unix := ⟨selects, reads⟩ } := by
  rw [forward_got buf.size _ next]
  rfl

theorem forward_full (buf : Buffer)
    (next : e.unix = ⟨.ready :: selects, .got bytes fits :: reads⟩)
    (full : bytes.length = 4096) :
    forward buf.bytes e =
      .error (.undefined "buf[n]") { e with unix := ⟨selects, reads⟩ } := by
  have size : (bytes ++ buf.bytes.drop 4096).length = 4096 := by
    rw [List.length_append, List.length_drop, buf.size, full]
  rw [forward_got buf.size fits next, full, if_pos (by decide), putNul_behind size]
  rfl

/-- A read that fills a part of `buf` is passed on. -/
theorem forward_part (buf : Buffer)
    (next : e.unix = ⟨.ready :: selects, .got bytes fits :: reads⟩)
    (some : bytes ≠ []) (part : bytes.length < 4096) :
    forward buf.bytes e = (onPi (writeExact bytes (.ofNat bytes.length)) >>= fun _ =>
      pure ((bytes ++ buf.bytes.drop bytes.length).set bytes.length 0) :
        Prog PiEchoT (List UInt8)) { e with unix := ⟨selects, reads⟩ } := by
  have positive : 0 < bytes.length := List.length_pos_iff.mpr some
  have size : (bytes ++ buf.bytes.drop bytes.length).length = 4096 := by
    rw [List.length_append, List.length_drop, buf.size]
    omega
  have nonzero : (UInt32.ofInt bytes.length).toInt32 ≠ 0 := by
    intro zero
    have value := toInt_readTimeout fits
    rw [zero] at value
    have none : (0 : Int) = bytes.length := value
    omega
  have length : (UInt32.ofNat bytes.length).toNat = bytes.length := by
    rw [UInt32.toNat_ofNat']
    omega
  have same : writeExact ((bytes ++ buf.bytes.drop bytes.length).set bytes.length 0)
      (.ofNat bytes.length) = writeExact bytes (.ofNat bytes.length) := by
    funext fd
    apply writeExact_congr
    · rw [length, List.take_set_of_le (Nat.le_refl _), List.take_left, List.take_length]
    · rw [length, List.length_set, size]
      exact fits
    · rw [length]
  rw [forward_got buf.size fits next, if_pos nonzero, putNul_of_room size part, pure_bind,
    ofInt_count fits, ← same]
  rfl

/-- A failed read comes back as the length 2^32 - 1, and as the index -1. -/
theorem forward_failed (buf : Buffer) (next : e.unix = ⟨.ready :: selects, .failed :: reads⟩) :
    forward buf.bytes e =
      .error (.undefined "buf[n]") { e with unix := ⟨selects, reads⟩ } := by
  have got : onUnix (readTimeout buf.bytes 4096) e =
      .ok (-1, buf.bytes) { e with unix := ⟨selects, reads⟩ } := by
    apply Prog.onPart_of_ok
    rw [next]
    rfl
  rw [forward, Prog.bind_of_ok got]
  rfl

/-- Without a read nothing is done, or the program ends where `relay` does. -/
theorem relays_of_no_read (buf : Buffer)
    (quiet : e.unix.selects.head? ≠ some .ready ∨ e.unix.reads = []) : Relays buf e := by
  obtain ⟨⟨selects, reads⟩, pi, piSelects, ttyGone, echo⟩ := e
  cases selects with
  | nil => rfl
  | cons select selects =>
      cases select with
      | failed => rfl
      | silent => rfl
      | ready =>
          rcases quiet with notReady | noReads
          · exact absurd rfl notReady
          · cases noReads
            rfl

/-- A failed read is not noticed, so that the program does not end there. -/
theorem not_relays_failed (buf : Buffer)
    (next : e.unix = ⟨.ready :: selects, .failed :: reads⟩) : ¬ Relays buf e := by
  intro relays
  rw [Relays, Prog.bind_of_error (forward_failed buf next), relay_failed next] at relays
  cases relays

theorem not_relays_full (buf : Buffer)
    (next : e.unix = ⟨.ready :: selects, .got bytes fits :: reads⟩)
    (full : bytes.length = 4096) : ¬ Relays buf e := by
  intro relays
  rw [Relays, Prog.bind_of_error (forward_full buf next full), relay_got next] at relays
  have passes := onPi_stops (writeExact_stops bytes (.ofNat bytes.length))
  exact StopsOnly.ite (.bind passes fun _ _ _ _ => .pure ()) (.pure ()) relays.symm rfl

theorem relays_got_iff (buf : Buffer)
    (next : e.unix = ⟨.ready :: selects, .got bytes fits :: reads⟩) :
    Relays buf e ↔ bytes.length < 4096 := by
  constructor
  · intro relays
    by_contra full
    exact not_relays_full buf next (by omega) relays
  · intro part
    by_cases some : bytes = []
    · subst some
      rw [Relays, Prog.bind_of_ok (forward_eof buf next), relay_got next, if_neg (by simp)]
    · rw [Relays, relay_got next, if_pos some]
      have ran := forward_part buf next some part
      cases wrote : onPi (writeExact bytes (.ofNat bytes.length))
        { e with unix := ⟨selects, reads⟩ } with
      | ok value after =>
          rw [Prog.bind_of_ok wrote] at ran ⊢
          rw [Prog.bind_of_ok ran]
      | error stop after =>
          rw [Prog.bind_of_error wrote] at ran ⊢
          rw [Prog.bind_of_error ran]

end

/-- The first half of a round does what it should if and only if there is room
for the NUL behind what was read, and something was read at all. -/
theorem relays_iff (buf : Buffer) (e : PiEchoT) : Relays buf e ↔ LeavesRoom e := by
  obtain ⟨⟨selects, reads⟩, pi, piSelects, ttyGone, echo⟩ := e
  by_cases ready : selects.head? = some .ready
  · obtain ⟨selects, rfl⟩ := List.head?_eq_some_iff.mp ready
    cases reads with
    | nil =>
        refine iff_of_true (relays_of_no_read buf (.inr rfl)) fun _ result mem => ?_
        cases mem
    | cons result reads =>
        cases result with
        | failed =>
            refine iff_of_false (not_relays_failed buf rfl) fun room => ?_
            exact (room rfl .failed rfl).1 rfl
        | got bytes fits =>
            rw [relays_got_iff buf rfl]
            constructor
            · intro part _ result mem
              cases mem
              simp only [ReadResult.value]
              omega
            · intro room
              have inside := (room rfl (.got bytes fits) rfl).2
              simp only [ReadResult.value] at inside
              omega
  · exact iff_of_true (relays_of_no_read buf (.inl ready)) fun now => absurd now ready

/-! ## What comes from the pi -/

/-- The NUL replaces the first byte of what is stale. -/
theorem set_behind {bytes stale : List UInt8} (room : stale ≠ []) :
    (bytes ++ stale).set bytes.length 0 = bytes ++ 0 :: stale.drop 1 := by
  cases stale with
  | nil => exact absurd rfl room
  | cons byte stale =>
      rw [List.set_append_right _ _ (Nat.le_refl _), Nat.sub_self]
      rfl

theorem echoRead_eq {read : Read} {count : Nat} (length : read.bytes.length = count) :
    echoRead read = echoBuf (read.bytes ++ 0 :: read.stale) count := by
  subst length
  rfl

/-- A read that gets some bytes is handled by `echoRead`. -/
theorem listen_reads (portname : Bool) {buf : List UInt8} (size : buf.length = 4096)
    {e : PiEchoT} {selects : List Select} {count : Nat} {later : List Transfer}
    (ready : e.piSelects = .ready :: selects) (next : e.pi.transfers = .moved count :: later)
    (some : 0 < count) (asked : count < 4096) (there : count ≤ e.pi.input.length) :
    ∃ piRead : Read, piRead.bytes = e.pi.input.take count ∧
      listen portname buf e = onEcho (echoRead piRead)
        { e with pi := ⟨e.pi.input.drop count, e.pi.output, later⟩, piSelects := selects } := by
  have length : (e.pi.input.take count).length = count := by
    rw [List.length_take]
    omega
  have stale : (buf.drop count).length = 4096 - count := by rw [List.length_drop, size]
  have selected : onPiSelects canReadTimeout e = .ok true { e with piSelects := selects } := by
    apply Prog.onPart_of_ok
    rw [ready]
    rfl
  have got : onPi (read buf (4096 - 1)) { e with piSelects := selects } =
      .ok ((count : Int), e.pi.input.take count ++ buf.drop count)
        { e with pi := ⟨e.pi.input.drop count, e.pi.output, later⟩, piSelects := selects } :=
    Prog.onPart_of_ok (read_moved next (Nat.le_of_lt_succ asked) there (by omega))
  have value : (Int32.ofInt count).toInt = count :=
    Int32.toInt_ofInt_of_le (by omega) (by omega)
  have positive : ¬ Int32.ofInt count = 0 := by
    intro zero
    rw [zero] at value
    have none : (0 : Int) = count := value
    omega
  have nul : (putNul (e.pi.input.take count ++ buf.drop count) (Int32.ofInt count) :
      Prog PiEchoT (List UInt8)) =
      pure (e.pi.input.take count ++ 0 :: (buf.drop count).drop 1) := by
    have behind := @set_behind (e.pi.input.take count) (buf.drop count)
      (List.ne_nil_of_length_pos (by omega))
    rw [length] at behind
    rw [putNul, value, if_pos (by rw [List.length_append, length, stale]; omega),
      Int.toNat_natCast, behind]
  let piRead : Read :=
    { bytes := e.pi.input.take count
      stale := (buf.drop count).drop 1
      nonempty := List.ne_nil_of_length_pos (by omega)
      size := by rw [List.length_drop, length, stale]; omega }
  have handled : echoRead piRead = _ := echoRead_eq length
  refine ⟨piRead, rfl, ?_⟩
  rw [listen, Prog.bind_of_ok selected, Bool.not_true, if_neg Bool.false_ne_true,
    Prog.bind_of_ok got]
  dsimp only
  rw [if_neg positive, if_neg (got_of_small (by omega)).1, nul, pure_bind, value,
    Int.toNat_natCast, handled]

/-! ## Runs -/

/-- The reads from `unix_fd`, when nothing is written to `pi_fd`. -/
def piView : InputView PiEchoT ReadResult where
  inv := fun _ => True
  unread := fun e => e.unix.reads
  frame := fun e after => after.pi.output = e.pi.output
  frame_refl := fun _ => rfl
  frame_trans := fun left right => right.trans left

/-- Nothing is read from `unix_fd`. -/
def NoReads {α : Type} : α → List ReadResult → Prop := fun _ taken => taken = []

theorem takes_part {τ α : Type} {view : PiEchoT → τ} {update : τ → PiEchoT → PiEchoT}
    {program : Prog τ α} (reads : ∀ part e, (update part e).unix = e.unix)
    (writes : ∀ e value part, program (view e) = .ok value part →
      (update part e).pi.output = e.pi.output) :
    Takes piView (Prog.onPart view update program) NoReads := by
  intro e after value kept returned
  cases ran : program (view e) with
  | ok result part =>
      rw [Prog.onPart_of_ok ran] at returned
      cases returned
      exact ⟨[], ⟨trivial, writes e value part ran, by simp [piView, reads]⟩, rfl⟩
  | error stop part =>
      rw [Prog.onPart_of_error ran] at returned
      cases returned

theorem read_output {data : List UInt8} {n : UInt32} {fd after : Fd}
    {result : Int × List UInt8} (returned : read data n fd = .ok result after) :
    after.output = fd.output := by
  unfold read at returned
  split at returned
  · cases returned
  · cases returned
    rfl
  · split at returned
    · cases returned
    · cases returned
      rfl

theorem takes_bind {α β : Type} {program : Prog PiEchoT α} {next : α → Prog PiEchoT β}
    (first : Takes piView program NoReads) (rest : ∀ value, Takes piView (next value) NoReads) :
    Takes piView (program >>= next) NoReads := by
  refine first.bind fun value taken none => (rest value).mono fun result more noMore => ?_
  rw [NoReads] at none noMore ⊢
  rw [none, noMore]
  rfl

/-- The listening half leaves `unix_fd` alone and writes nothing. -/
theorem takes_listen (portname : Bool) (buf : List UInt8) :
    Takes piView (listen portname buf) NoReads := by
  have gone : Takes piView ttyIsGone NoReads := by
    intro e after value kept returned
    cases returned
    exact ⟨[], ⟨trivial, rfl, rfl⟩, rfl⟩
  have nul (buf : List UInt8) (n : Int32) : Takes piView (putNul buf n) NoReads :=
    .ite (fun _ => .pure rfl) fun _ => .throw _
  refine takes_bind (takes_part (fun _ _ => rfl) fun _ _ _ _ => rfl) fun ready => ?_
  refine .ite (fun _ => .pure rfl) fun _ => ?_
  refine takes_bind (takes_part (fun _ _ => rfl) fun _ _ _ ran => read_output ran) fun got => ?_
  refine .ite (fun _ => .ite (fun _ => gone) fun _ => .pure rfl) fun _ => ?_
  refine .ite (fun _ => .throw _) fun _ => takes_bind (nul _ _) fun buf => ?_
  exact takes_part (fun _ _ => rfl) fun _ _ _ _ => rfl

theorem onPi_returned {α : Type} {program : Prog Fd α} {e after : PiEchoT} {value : α}
    (returned : onPi program e = .ok value after) :
    program e.pi = .ok value after.pi ∧ after.unix = e.unix := by
  cases ran : program e.pi with
  | ok result pi =>
      rw [onPi, Prog.onPart_of_ok ran] at returned
      cases returned
      exact ⟨rfl, rfl⟩
  | error stop pi =>
      rw [onPi, Prog.onPart_of_error ran] at returned
      cases returned

/-- The first half has written the bytes it has read. -/
theorem forward_returned (buf : Buffer) {e after : PiEchoT} {filled : List UInt8}
    (returned : forward buf.bytes e = .ok filled after) :
    ∃ taken, e.unix.reads = taken ++ after.unix.reads ∧
      after.pi.output = e.pi.output ++ taken.flatMap ReadResult.bytes := by
  obtain ⟨⟨selects, reads⟩, pi, piSelects, ttyGone, echo⟩ := e
  cases selects with
  | nil =>
      cases returned
      exact ⟨[], rfl, (List.append_nil _).symm⟩
  | cons select selects =>
      cases select with
      | failed => cases returned
      | silent =>
          cases returned
          exact ⟨[], rfl, (List.append_nil _).symm⟩
      | ready =>
          cases reads with
          | nil => cases returned
          | cons result reads =>
              refine ⟨[result], ?_⟩
              rw [List.flatMap_singleton]
              cases result with
              | failed =>
                  rw [forward_failed buf rfl] at returned
                  cases returned
              | got bytes fits =>
                  by_cases full : bytes.length = 4096
                  · rw [forward_full buf rfl full] at returned
                    cases returned
                  · by_cases some : bytes = []
                    · subst some
                      rw [forward_eof buf rfl] at returned
                      cases returned
                      exact ⟨rfl, (List.append_nil _).symm⟩
                    · rw [forward_part buf rfl some (by omega)] at returned
                      obtain ⟨_, middle, wrote, ends⟩ := Prog.ok_of_bind_ok returned
                      cases ends
                      obtain ⟨written, same⟩ := onPi_returned wrote
                      rw [same, writeExact_returned written, UInt32.toNat_ofNat',
                        Nat.mod_eq_of_lt (by omega), List.take_length]
                      exact ⟨rfl, rfl⟩

/-- In every run the pi has got exactly the bytes that were read, in order. -/
theorem reached_forwards {portname : Bool} {start after : PiEchoT}
    (reached : Reached portname start after) :
    ∃ taken, start.unix.reads = taken ++ after.unix.reads ∧
      after.pi.output = start.pi.output ++ taken.flatMap ReadResult.bytes := by
  induction reached with
  | refl => exact ⟨[], rfl, (List.append_nil _).symm⟩
  | round reached buf ran ih =>
      obtain ⟨taken, split, output⟩ := ih
      obtain ⟨filled, middle, forwarded, listened⟩ := Prog.ok_of_bind_ok ran
      obtain ⟨more, splitMore, outputMore⟩ := forward_returned buf forwarded
      obtain ⟨none, took, noReads⟩ := takes_listen portname filled trivial listened
      have unread : middle.unix.reads = none ++ _ := took.split
      rw [NoReads] at noReads
      rw [noReads, List.nil_append] at unread
      refine ⟨taken ++ more, ?_, ?_⟩
      · rw [split, splitMore, unread, List.append_assoc]
        rfl
      · have same : _ = middle.pi.output := took.same
        rw [same, outputMore, output, List.flatMap_append, List.append_assoc]

/-- A stack of zeros. -/
def zeros : Buffer := ⟨List.replicate 4096 0, List.length_replicate⟩

/-- In every run the first half of each round does what it should if and only if
no round's read from `unix_fd` fails or fills `buf`. -/
theorem pi_echo_forwards_iff (portname : Bool) (start : PiEchoT) :
    (∀ e, Reached portname start e → ∀ buf, Relays buf e) ↔
      ∀ e, Reached portname start e → LeavesRoom e := by
  constructor
  · intro relays e reached
    exact (relays_iff zeros e).mp (relays e reached zeros)
  · intro room e reached buf
    exact (relays_iff buf e).mpr (room e reached)

/-- What is read next, with nothing from the pi. -/
def oneRead (result : ReadResult) : PiEchoT :=
  ⟨⟨[.ready], [result]⟩, ⟨[], [], [.moved 4096]⟩, [], [], ⟨0, []⟩⟩

/-- Neither a failed read nor one of 4096 bytes is handled. -/
theorem pi_echo_leaves_buf :
    (¬ ∀ e, Reached true (oneRead .failed) e → ∀ buf, Relays buf e) ∧
      ¬ ∀ e, Reached true (oneRead (.got (List.replicate 4096 97)
        (Nat.le_of_eq List.length_replicate))) e → ∀ buf, Relays buf e := by
  constructor
  · intro relays
    exact not_relays_failed zeros rfl (relays _ .refl zeros)
  · intro relays
    exact not_relays_full zeros rfl List.length_replicate (relays _ .refl zeros)

end Cs140e.Libunix
