import Cs140e.Library.Simulation
import Cs140e.FakePi.System

/-!
# The invariant of a session

As long as `main` has sent a single `PI_READY`, the bytes in flight are exactly
the requests the pi has not taken and the messages the unix side has not
taken.  The invariant says so, message by message, for every pair of program
points of the two sides.
-/

namespace Cs140e.FakePi

open Cs140e.Library

variable {D : Type}

/-! ## Local execution -/

/-- The accesses a program makes, and the memory they leave, when it runs on
the pi itself. -/
inductive LocalRun (device : Device D) (program : Program) (memory : D) :
    List Access → D → Prop where
  | start : LocalRun device program memory [] memory
  | store {done : List Access} {state : D} {addr val : UInt32}
      (before : LocalRun device program memory done state)
      (calls : program done = .put32 addr val) :
      LocalRun device program memory (done ++ [.store addr val]) (device.store addr val state)
  | load {done : List Access} {state : D} {addr : UInt32}
      (before : LocalRun device program memory done state)
      (calls : program done = .get32 addr) :
      LocalRun device program memory (done ++ [.load addr (device.load addr state).1])
        (device.load addr state).2

/-- The call a program makes for one of its accesses. -/
def Access.request : Access → Request
  | .store addr val => .put32 addr val
  | .load addr _ => .get32 addr

/-- Every access of a local run is the one the program calls for at that point. -/
theorem LocalRun.program_at {device : Device D} {program : Program} {memory state : D}
    {done all rest : List Access} {access : Access}
    (run : LocalRun device program memory all state) (split : all = done ++ access :: rest) :
    program done = access.request := by
  induction run generalizing rest with
  | start => simp at split
  | store before calls ih =>
      rcases List.eq_nil_or_concat rest with rfl | ⟨rest, last, rfl⟩
      · obtain ⟨rfl, same⟩ := List.append_inj' split rfl
        cases same
        exact calls
      · rw [List.concat_eq_append, ← List.cons_append, ← List.append_assoc] at split
        exact ih (List.append_inj' split rfl).1
  | load before calls ih =>
      rcases List.eq_nil_or_concat rest with rfl | ⟨rest, last, rfl⟩
      · obtain ⟨rfl, same⟩ := List.append_inj' split rfl
        cases same
        exact calls
      · rw [List.concat_eq_append, ← List.cons_append, ← List.append_assoc] at split
        exact ih (List.append_inj' split rfl).1

/-! ## The two directions -/

/-- The pi is at a program point where `rest` are the bytes of its current
request that it has not read yet. -/
inductive Reading : PiPhase → List UInt8 → List Request → Prop where
  | nextOp : Reading .nextOp [] []
  | replying (val : UInt32) : Reading (.replying val) [] []
  | rebooted : Reading .rebooted [] []
  | getAddr {addr : UInt32} {got rest : List UInt8}
      (split : got ++ rest = LittleEndian.bytesOf addr) (more : rest ≠ []) :
      Reading (.getAddr got) rest [.get32 addr]
  | loading (addr : UInt32) : Reading (.loading addr) [] [.get32 addr]
  | putAddr {addr val : UInt32} {got rest : List UInt8}
      (split : got ++ rest = LittleEndian.bytesOf addr) (more : rest ≠ []) :
      Reading (.putAddr got) (rest ++ LittleEndian.bytesOf val) [.put32 addr val]
  | putVal {addr val : UInt32} {got rest : List UInt8}
      (split : got ++ rest = LittleEndian.bytesOf val) (more : rest ≠ []) :
      Reading (.putVal addr got) rest [.put32 addr val]
  | storing (addr val : UInt32) : Reading (.storing addr val) [] [.put32 addr val]

/-- The pi is neither replying nor rebooted. -/
def PiPhase.Serving : PiPhase → Prop
  | .replying _ => False
  | .rebooted => False
  | _ => True

/-- The requests and the accesses of puts that the pi has not performed yet. -/
def putRequests (puts : List (UInt32 × UInt32)) : List Request :=
  puts.map fun put => .put32 put.1 put.2

def putAccesses (puts : List (UInt32 × UInt32)) : List Access :=
  puts.map fun put => .store put.1 put.2

/-- What is still to be read of the print message the unix side is in. -/
def Half (char : Bool) (half : List UInt8) : Prop := half.length = if char then 1 else 0

/-- The unix side has called `clean_reboot`; `char` as in `UnixPhase.getOp`. -/
inductive Leaving : UnixPhase → Bool → Prop where
  | getOp (char : Bool) : Leaving (.getOp .flush char) char
  | flushing : Leaving .flushing false
  | exited : Leaving .exited false

/-- How the program points of the two sides, the accesses each has seen, the
requests in flight and the awaited answer belong together. -/
inductive Link (program : Program) (unix : UnixPhase) (pi : PiPhase)
    (history performed : List Access) (requests : List Request)
    (half before answer after : List UInt8) : Prop where
  | running (puts : List (UInt32 × UInt32)) (unixEq : unix = .running) (serving : pi.Serving)
      (historyEq : history = performed ++ putAccesses puts)
      (requestsEq : requests = putRequests puts)
      (halfEq : half = []) (answerEq : answer = []) (afterEq : after = [])
  | asking (puts : List (UInt32 × UInt32)) (addr : UInt32) (char : Bool)
      (unixEq : unix = .getOp (.reply addr) char) (serving : pi.Serving)
      (calls : program history = .get32 addr)
      (historyEq : history = performed ++ putAccesses puts)
      (requestsEq : requests = putRequests puts ++ [.get32 addr])
      (halfEq : Half char half) (answerEq : answer = []) (afterEq : after = [])
  | loaded (addr val : UInt32) (char : Bool)
      (unixEq : unix = .getOp (.reply addr) char) (piEq : pi = .replying val)
      (performedEq : performed = history ++ [.load addr val])
      (requestsEq : requests = [])
      (halfEq : Half char half) (answerEq : answer = []) (afterEq : after = [])
  | answered (addr val : UInt32) (char : Bool)
      (unixEq : unix = .getOp (.reply addr) char) (piEq : pi = .nextOp)
      (performedEq : performed = history ++ [.load addr val])
      (requestsEq : requests = [])
      (halfEq : Half char half)
      (answerEq : answer = Opcode.get32Reply.code :: LittleEndian.bytesOf val)
  | receiving (addr val : UInt32) (got : List UInt8)
      (unixEq : unix = .getVal addr got) (piEq : pi = .nextOp)
      (performedEq : performed = history ++ [.load addr val])
      (requestsEq : requests = [])
      (halfEq : half = []) (beforeEq : before = [])
      (split : got ++ answer = LittleEndian.bytesOf val) (more : answer ≠ [])
  | leaving (puts : List (UInt32 × UInt32)) (char : Bool)
      (unixEq : Leaving unix char) (serving : pi.Serving)
      (historyEq : history = performed ++ putAccesses puts)
      (requestsEq : requests = putRequests puts ++ [.reboot])
      (halfEq : Half char half) (answerEq : answer = []) (afterEq : after = [])
  | left (char : Bool) (unixEq : Leaving unix char) (piEq : pi = .rebooted)
      (historyEq : history = performed) (requestsEq : requests = [])
      (halfEq : Half char half) (answerEq : answer = []) (afterEq : after = [])

/-- The invariant once the handshake is over: `current` is the request the pi
is reading or executing, `queued` are those after it, and the bytes on their
way to the unix side are the rest of a print message, prints, the answer and
prints. -/
structure Session (device : Device D) (program : Program) (memory : D) (s : System D)
    (current queued : List Request) (half before answer after : List UInt8) : Prop where
  reading : ∃ rest, Reading s.pi.phase rest current ∧ s.toPi.items = rest ++ encodeAll queued
  opcodes : s.unix.issued.map Opcode.code =
    s.pi.opcodes ++ queued.map fun request => request.opcode.code
  up : s.toUnix.items = half ++ (printChars before ++ (answer ++ printChars after))
  printed : s.unix.printed ++ (half ++ (before ++ after)) = s.pi.printed
  performed : LocalRun device program memory s.pi.performed s.pi.device
  asked : ∃ state, LocalRun device program memory s.unix.history state
  link : Link program s.unix.phase s.pi.phase s.unix.history s.pi.performed
    (current ++ queued) half before answer after

/-- The invariant of runs without a timeout in the handshake. -/
inductive Healthy (device : Device D) (program : Program) (memory : D) (s : System D) : Prop where
  | pinged (unixEq : s.unix = ⟨.pinged, [], [], [], 0⟩)
      (piEq : s.pi = ⟨.booted, memory, [], [], []⟩)
      (down : s.toPi.items = [Opcode.ready.code]) (up : s.toUnix.items = [])
  | greeted (phase : UnixPhase) (chars : List UInt8)
      (waits : phase = .pinged ∨ phase = .getOp .handshake false)
      (unixEq : s.unix = ⟨phase, [], [], [], 0⟩) (piEq : s.pi = ⟨.nextOp, memory, [], [], chars⟩)
      (down : s.toPi.items = []) (up : s.toUnix.items = Opcode.ready.code :: printChars chars)
  | session (current queued : List Request) (half before answer after : List UInt8)
      (holds : Session device program memory s current queued half before answer after)

end Cs140e.FakePi
