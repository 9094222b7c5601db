import Cs140e.Library.Channel
import Cs140e.FakePi.Message

/-!
# The unix side and the pi side of the fake pi

A translation of `unix-side/fake-pi.c` and `pi-side/pi-vmm.c` as two parties
over two byte channels.  A party writes only when everything it wrote before
is on the wire, and takes one byte at a time.  The pi may print a character
whenever it is not in the middle of sending something else.
-/

namespace Cs140e.FakePi

open Cs140e.Library

/-! ## The program and the memory of the pi -/

/-- One access to the memory of the pi, with the value it read or wrote. -/
inductive Access where
  | store (addr val : UInt32)
  | load (addr val : UInt32)
  deriving DecidableEq, Repr

/-- The memory and the devices of the pi; a load may change their state. -/
structure Device (D : Type) where
  load : UInt32 → D → UInt32 × D
  store : UInt32 → UInt32 → D → D

/-- What the program linked against the fake pi calls next, given its accesses
so far and their results.  Addresses pass `assert(x32 == x64)`.  Returning from
`notmain` is the same call of `clean_reboot`. -/
abbrev Program := List Access → Request

variable {D : Type}

/-! ## The unix side -/

/-- Who called `get_op`, and so what its result is used for. -/
inductive GetOpCaller where
  | handshake
  | reply (addr : UInt32)
  | flush
  deriving DecidableEq, Repr

inductive UnixPhase where
  /-- `can_read_timeout` after `put_uint8(PI_READY)` in `main`. -/
  | pinged
  /-- `get_op`, before the opcode or (`char`) before the character of a print. -/
  | getOp (caller : GetOpCaller) (char : Bool)
  /-- `get_uint32` in `get32`, with the bytes read so far. -/
  | getVal (addr : UInt32) (got : List UInt8)
  /-- In `notmain`. -/
  | running
  /-- `can_read_timeout` in `clean_reboot`. -/
  | flushing
  | exited
  | panicked (message : String)
  deriving DecidableEq, Repr

structure Unix where
  phase : UnixPhase
  /-- The accesses the program has made, as it sees them. -/
  history : List Access
  /-- The opcodes of all calls made so far. -/
  issued : List Opcode
  /-- The characters printed for the pi. -/
  printed : List UInt8
  /-- How often `can_read_timeout` in `main` answered no. -/
  timeouts : Nat
  deriving DecidableEq, Repr

/-- `expect_op` and the loop in `clean_reboot`, given the result of `get_op`. -/
def Unix.gotOp (unix : Unix) (caller : GetOpCaller) (op : UInt8) : Unix :=
  match caller with
  | .handshake =>
      if op = Opcode.ready.code then { unix with phase := .running }
      else { unix with phase := .panicked "expected %d, received %d\n" }
  | .reply addr =>
      if op = Opcode.get32Reply.code then { unix with phase := .getVal addr [] }
      else { unix with phase := .panicked "expected %d, received %d\n" }
  | .flush => { unix with phase := .flushing }

/-- What the unix side does with a byte it reads; `none` when it reads none. -/
def Unix.read? (unix : Unix) (byte : UInt8) : Option Unix :=
  match unix.phase with
  | .getOp caller false =>
      if byte = Opcode.printChar.code then some { unix with phase := .getOp caller true }
      else some (unix.gotOp caller byte)
  | .getOp caller true =>
      some { unix with phase := .getOp caller false, printed := unix.printed ++ [byte] }
  | .getVal addr got =>
      if got.length + 1 = 4 then
        some { unix with
          phase := .running
          history := unix.history ++ [.load addr (LittleEndian.wordOf (got ++ [byte]))] }
      else some { unix with phase := .getVal addr (got ++ [byte]) }
  | _ => none

/-- The next call of the program: what is written, and the state after it. -/
def Unix.call (unix : Unix) (request : Request) : Unix :=
  match request with
  | .put32 addr val =>
      { unix with
        history := unix.history ++ [.store addr val]
        issued := unix.issued ++ [.put32] }
  | .get32 addr =>
      { unix with
        phase := .getOp (.reply addr) false
        issued := unix.issued ++ [.get32] }
  | .reboot =>
      { unix with
        phase := .flushing
        issued := unix.issued ++ [.reboot] }

/-! ## The pi side -/

inductive PiPhase where
  /-- The first `get_byte` of `notmain`. -/
  | booted
  /-- `op = get_byte()` in the loop. -/
  | nextOp
  | getAddr (got : List UInt8)
  | loading (addr : UInt32)
  | replying (val : UInt32)
  | putAddr (got : List UInt8)
  | putVal (addr : UInt32) (got : List UInt8)
  | storing (addr val : UInt32)
  | rebooted
  | panicked (message : String)
  deriving DecidableEq, Repr

structure Pi (D : Type) where
  phase : PiPhase
  device : D
  /-- The accesses performed so far. -/
  performed : List Access
  /-- The bytes the loop received as opcodes. -/
  opcodes : List UInt8
  /-- The characters handed to `net_putchar`. -/
  printed : List UInt8
  deriving DecidableEq, Repr

def Pi.greeting : List UInt8 :=
  "PI VMM: about to start pi vmm\n".toList.map fun c => UInt8.ofNat c.toNat

/-- The second line is printed by `clean_reboot`. -/
def Pi.farewell : List UInt8 :=
  "PI: reboot\nDONE!!!\n".toList.map fun c => UInt8.ofNat c.toNat

def Pi.unexpectedOp : String := "unexpected op: %d\n"

/-- The pi prints characters through `net_putchar`. -/
def Pi.print (pi : Pi D) (chars : List UInt8) : Pi D :=
  { pi with printed := pi.printed ++ chars }

/-- The `switch` on the opcode: the state after it and the bytes it writes.  The text that a
panic prints is left out. -/
def Pi.gotOp (pi : Pi D) (op : UInt8) : Pi D × List UInt8 :=
  let pi := { pi with opcodes := pi.opcodes ++ [op] }
  match Opcode.ofCode? op with
  | some .reboot => ({ pi.print Pi.farewell with phase := .rebooted }, printChars Pi.farewell)
  | some .get32 => ({ pi with phase := .getAddr [] }, [])
  | some .put32 => ({ pi with phase := .putAddr [] }, [])
  | some .gpioSetInput => ({ pi with phase := .panicked "unimplemented" }, [])
  | some .gpioRead => ({ pi with phase := .panicked "unimplemented" }, [])
  | some .gpioSetOutput => ({ pi with phase := .panicked "unimplemented" }, [])
  | some .gpioWrite => ({ pi with phase := .panicked "unimplemented" }, [])
  | _ => ({ pi with phase := .panicked Pi.unexpectedOp }, [])

/-- What the pi does with a byte it reads; `none` when it reads none. -/
def Pi.read? (pi : Pi D) (byte : UInt8) : Option (Pi D × List UInt8) :=
  match pi.phase with
  | .booted =>
      if byte = Opcode.ready.code then
        some ({ pi.print Pi.greeting with phase := .nextOp },
          Opcode.ready.code :: printChars Pi.greeting)
      else some ({ pi with phase := .panicked "what is going on?\n" }, [])
  | .nextOp => some (pi.gotOp byte)
  | .getAddr got =>
      if got.length + 1 = 4 then
        some ({ pi with phase := .loading (LittleEndian.wordOf (got ++ [byte])) }, [])
      else some ({ pi with phase := .getAddr (got ++ [byte]) }, [])
  | .putAddr got =>
      if got.length + 1 = 4 then
        some ({ pi with phase := .putVal (LittleEndian.wordOf (got ++ [byte])) [] }, [])
      else some ({ pi with phase := .putAddr (got ++ [byte]) }, [])
  | .putVal addr got =>
      if got.length + 1 = 4 then
        some ({ pi with phase := .storing addr (LittleEndian.wordOf (got ++ [byte])) }, [])
      else some ({ pi with phase := .putVal addr (got ++ [byte]) }, [])
  | _ => none

/-- What the pi does without reading: `GET32`, the reply, and `PUT32`. -/
def Pi.work? (device : Device D) (pi : Pi D) : Option (Pi D × List UInt8) :=
  match pi.phase with
  | .loading addr =>
      let (val, after) := device.load addr pi.device
      some ({ pi with
        phase := .replying val
        device := after
        performed := pi.performed ++ [.load addr val] }, [])
  | .replying val =>
      some ({ pi with phase := .nextOp },
        Opcode.get32Reply.code :: LittleEndian.bytesOf val)
  | .storing addr val =>
      some ({ pi with
        phase := .nextOp
        device := device.store addr val pi.device
        performed := pi.performed ++ [.store addr val] }, [])
  | _ => none

/-- The pi prints between messages while its loop is alive. -/
def Pi.canPrint (pi : Pi D) : Bool :=
  match pi.phase with
  | .booted => false
  | .rebooted => false
  | .panicked _ => false
  | _ => true

/-! ## The system -/

structure System (D : Type) where
  unix : Unix
  pi : Pi D
  toPi : Channel UInt8
  toUnix : Channel UInt8
  deriving DecidableEq, Repr

inductive Action where
  | unixSends
  | unixReads
  | unixCalls
  /-- `can_read_timeout` answers yes. -/
  | unixCanRead
  /-- `can_read_timeout` answers no. -/
  | unixTimesOut
  | piSends
  | piReads
  | piWorks
  | piPrints (c : UInt8)
  | deliverToPi
  | deliverToUnix

/-- `can_read_timeout` answers yes once a byte has arrived. -/
def Unix.canRead? (unix : Unix) : Option Unix :=
  match unix.phase with
  | .pinged => some { unix with phase := .getOp .handshake false }
  | .flushing => some { unix with phase := .getOp .flush false }
  | _ => none

/-- `can_read_timeout` answers no: `main` sends another `PI_READY`, and
`clean_reboot` exits. -/
def Unix.timesOut? (unix : Unix) : Option (Unix × List UInt8) :=
  match unix.phase with
  | .pinged => some ({ unix with timeouts := unix.timeouts + 1 }, [Opcode.ready.code])
  | .flushing => some ({ unix with phase := .exited }, [])
  | _ => none

/-- One step of the system; `none` when the action is not enabled. -/
def step? (device : Device D) (program : Program) (s : System D) (action : Action) :
    Option (System D) :=
  match action with
  | .unixSends => s.toPi.send?.map fun toPi => { s with toPi := toPi }
  | .unixReads =>
      if s.toPi.pending = [] then do
        let (byte, toUnix) ← s.toUnix.take?
        let unix ← s.unix.read? byte
        some { s with unix := unix, toUnix := toUnix }
      else none
  | .unixCalls =>
      if s.toPi.pending = [] ∧ s.unix.phase = .running then
        some { s with
          unix := s.unix.call (program s.unix.history)
          toPi := s.toPi.write (program s.unix.history).encode }
      else none
  | .unixCanRead =>
      if s.toPi.pending = [] ∧ s.toUnix.arrived ≠ [] then
        s.unix.canRead?.map fun unix => { s with unix := unix }
      else none
  | .unixTimesOut =>
      if s.toPi.pending = [] ∧ s.toUnix.arrived = [] then
        s.unix.timesOut?.map fun (unix, written) =>
          { s with unix := unix, toPi := s.toPi.write written }
      else none
  | .piSends => s.toUnix.send?.map fun toUnix => { s with toUnix := toUnix }
  | .piReads =>
      if s.toUnix.pending = [] then do
        let (byte, toPi) ← s.toPi.take?
        let (pi, written) ← s.pi.read? byte
        some { s with pi := pi, toPi := toPi, toUnix := s.toUnix.write written }
      else none
  | .piWorks =>
      if s.toUnix.pending = [] then
        (s.pi.work? device).map fun (pi, written) =>
          { s with pi := pi, toUnix := s.toUnix.write written }
      else none
  | .piPrints c =>
      if s.toUnix.pending = [] ∧ s.pi.canPrint = true then
        some { s with pi := s.pi.print [c], toUnix := s.toUnix.write (printChars [c]) }
      else none
  | .deliverToPi => s.toPi.deliver?.map fun toPi => { s with toPi := toPi }
  | .deliverToUnix => s.toUnix.deliver?.map fun toUnix => { s with toUnix := toUnix }

/-- Both sides at their start: `main` has just called `put_uint8(PI_READY)`. -/
def System.start (memory : D) : System D where
  unix := ⟨.pinged, [], [], [], 0⟩
  pi := ⟨.booted, memory, [], [], []⟩
  toPi := Channel.empty.write [Opcode.ready.code]
  toUnix := Channel.empty

/-- `s` is reached by executing the actions one after the other. -/
def run? (device : Device D) (program : Program) (memory : D) (actions : List Action) :
    Option (System D) :=
  actions.foldlM (step? device program) (System.start memory)

/-! ## What a step can do -/

/-- The effect of a step on the two parties and on the bytes in flight. -/
inductive Effect (device : Device D) (program : Program) (s after : System D) : Prop where
  /-- A byte moves along a channel. -/
  | moves (unixEq : after.unix = s.unix) (piEq : after.pi = s.pi)
      (down : after.toPi.items = s.toPi.items) (up : after.toUnix.items = s.toUnix.items)
  | unixReads (byte : UInt8) (read : s.unix.read? byte = some after.unix)
      (piEq : after.pi = s.pi) (down : after.toPi.items = s.toPi.items)
      (up : s.toUnix.items = byte :: after.toUnix.items)
  | unixCalls (running : s.unix.phase = .running)
      (unixEq : after.unix = s.unix.call (program s.unix.history))
      (piEq : after.pi = s.pi)
      (down : after.toPi.items = s.toPi.items ++ (program s.unix.history).encode)
      (up : after.toUnix.items = s.toUnix.items)
  | unixCanRead (canRead : s.unix.canRead? = some after.unix) (piEq : after.pi = s.pi)
      (nonempty : s.toUnix.items ≠ [])
      (down : after.toPi.items = s.toPi.items) (up : after.toUnix.items = s.toUnix.items)
  | unixTimesOut (written : List UInt8) (timesOut : s.unix.timesOut? = some (after.unix, written))
      (piEq : after.pi = s.pi)
      (down : after.toPi.items = s.toPi.items ++ written)
      (up : after.toUnix.items = s.toUnix.items)
  | piReads (byte : UInt8) (written : List UInt8)
      (read : s.pi.read? byte = some (after.pi, written)) (unixEq : after.unix = s.unix)
      (down : s.toPi.items = byte :: after.toPi.items)
      (up : after.toUnix.items = s.toUnix.items ++ written)
  | piWorks (written : List UInt8) (worked : s.pi.work? device = some (after.pi, written))
      (unixEq : after.unix = s.unix) (down : after.toPi.items = s.toPi.items)
      (up : after.toUnix.items = s.toUnix.items ++ written)
  | piPrints (c : UInt8) (alive : s.pi.canPrint = true) (piEq : after.pi = s.pi.print [c])
      (unixEq : after.unix = s.unix) (down : after.toPi.items = s.toPi.items)
      (up : after.toUnix.items = s.toUnix.items ++ printChars [c])

theorem step_effect {device : Device D} {program : Program} {s after : System D} {action : Action}
    (step : step? device program s action = some after) : Effect device program s after := by
  cases action with
  | unixSends =>
      obtain ⟨toPi, moved, rfl⟩ := Option.map_eq_some_iff.mp step
      exact .moves rfl rfl (Channel.items_send moved) rfl
  | unixReads =>
      rw [step?] at step
      split at step
      case isFalse => cases step
      obtain ⟨⟨byte, toUnix⟩, taken, rest⟩ := Option.bind_eq_some_iff.mp step
      obtain ⟨unix, read, same⟩ := Option.bind_eq_some_iff.mp rest
      cases same
      exact .unixReads byte read rfl rfl (Channel.items_take taken)
  | unixCalls =>
      rw [step?] at step
      split at step
      case isFalse => cases step
      case isTrue ready =>
        cases step
        exact .unixCalls ready.2 rfl rfl (Channel.items_write _ _) rfl
  | unixCanRead =>
      rw [step?] at step
      split at step
      case isFalse => cases step
      case isTrue ready =>
        obtain ⟨unix, canRead, rfl⟩ := Option.map_eq_some_iff.mp step
        refine .unixCanRead canRead rfl (fun empty => ready.2 ?_) rfl rfl
        exact (List.append_eq_nil_iff.mp (List.append_eq_nil_iff.mp empty).1).1
  | unixTimesOut =>
      rw [step?] at step
      split at step
      case isFalse => cases step
      obtain ⟨⟨unix, written⟩, timesOut, rfl⟩ := Option.map_eq_some_iff.mp step
      exact .unixTimesOut written timesOut rfl (Channel.items_write _ _) rfl
  | piSends =>
      obtain ⟨toUnix, moved, rfl⟩ := Option.map_eq_some_iff.mp step
      exact .moves rfl rfl rfl (Channel.items_send moved)
  | piReads =>
      rw [step?] at step
      split at step
      case isFalse => cases step
      obtain ⟨⟨byte, toPi⟩, taken, rest⟩ := Option.bind_eq_some_iff.mp step
      obtain ⟨⟨pi, written⟩, read, same⟩ := Option.bind_eq_some_iff.mp rest
      cases same
      exact .piReads byte written read rfl (Channel.items_take taken) (Channel.items_write _ _)
  | piWorks =>
      rw [step?] at step
      split at step
      case isFalse => cases step
      obtain ⟨⟨pi, written⟩, worked, rfl⟩ := Option.map_eq_some_iff.mp step
      exact .piWorks written worked rfl rfl (Channel.items_write _ _)
  | piPrints c =>
      rw [step?] at step
      split at step
      case isFalse => cases step
      case isTrue ready =>
        cases step
        exact .piPrints c ready.2 rfl rfl rfl (Channel.items_write _ _)
  | deliverToPi =>
      obtain ⟨toPi, moved, rfl⟩ := Option.map_eq_some_iff.mp step
      exact .moves rfl rfl (Channel.items_deliver moved) rfl
  | deliverToUnix =>
      obtain ⟨toUnix, moved, rfl⟩ := Option.map_eq_some_iff.mp step
      exact .moves rfl rfl rfl (Channel.items_deliver moved)

end Cs140e.FakePi
