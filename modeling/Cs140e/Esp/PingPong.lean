import Cs140e.Esp.SendDialog
import Mathlib.Logic.Relation

/-!
# The ping-pong of two pis

The loops of `server.c` and `client.c` from the point where they are connected on
channel 0, in a build with `LEX_SIMPLE`, whose lexer keeps all input in a buffer of
`LEX_MAXBUF` bytes.  A device takes every write as a whole.
The esps answer a send as they are documented to, and the network hands on what was
written to the other side, as late as it likes.
-/

namespace Cs140e.Esp.PingPong

open Cs140e.Library
open Text (dropWs)

/-- A pi with its esp. -/
abbrev Pi := EspT LexSimple Unit

/-! ## The server -/

/-- `sprintf(hello, "hello %d", i)`, for an `i` that is not negative. -/
def hello (i : Nat) : List UInt8 := ascii "hello " ++ Decimal.digits i

/-- The first half of a round of the server. -/
def serverSend (fuel i : Nat) : Prog Pi Unit := do
  let strlen := UInt32.ofNat (hello i).length
  if (← espSend fuel HandleOooMsg.server.run 0 (hello i) strlen) = 0 then
    throw (.panic "cannot send!!\n")

/-- The second half: `reply` and `x` are what the variables hold before. -/
def serverReceive (ch : UInt32) (i : Nat) (x : UInt32) (reply : List UInt8) : Prog Pi Nat := do
  let received ← espIsRecv x reply 1024
  Prog.assertThat (received.ch == ch) "x == ch"
  let reply ← poke received.data received.nbytes.toNat 0
  if cString reply ≠ cString (hello i) then
    throw (.panic "mismatch: have <%s>, expected <%s>\n")
  else if i = 2147483647 then
    throw (.undefined "overflow of an int")
  else pure (i + 1)

/-! ## The client -/

/-- The first half of a round of the client. -/
def clientReceive (ch : UInt32) (buf : List UInt8) : Prog Pi (List UInt8) := do
  let received ← espIsRecv ch buf 1024
  poke received.data received.nbytes.toNat 0

/-- The second half. -/
def clientSend (fuel : Nat) (buf : List UInt8) : Prog Pi Unit := do
  let strlen := UInt32.ofNat (cString buf).length
  if (← espSend fuel HandleOooMsg.client.run 0 (cString buf) strlen) = 0 then
    throw (.panic "cannot send!!\n")

/-! ## The system -/

structure Server where
  pi : Pi
  i : Nat
  waiting : Bool
  /-- How many bytes its esp has said so far. -/
  told : Nat

structure Client where
  pi : Pi
  /-- The buffer, once something was received. -/
  buf : Option (List UInt8)
  /-- How many bytes its esp has said so far. -/
  told : Nat

/-- The two pis, what is on its way between them, and what they have printed so far. -/
structure World where
  server : Server
  client : Client
  toClient : List (List UInt8)
  toServer : List (List UInt8)
  received : List (List UInt8)
  passed : List (List UInt8)
  stopped : Option Stop

/-- The esp says something. -/
def hears (pi : Pi) (polls : List Poll) : Pi := { pi with l := { pi.l with h := pi.l.h ++ polls } }

def Server.tells (s : Server) (polls : List Poll) : Server :=
  { s with pi := hears s.pi polls, told := s.told + (arriving polls).length }

def Client.tells (c : Client) (polls : List Poll) : Client :=
  { c with pi := hears c.pi polls, told := c.told + (arriving polls).length }

/-- What was written last. -/
def lastWritten (pi : Pi) : List UInt8 := (pi.sent.getLast?.map Prod.snd).getD []

/-- A call that waits is made again later, from where it was; another one goes on or stops. -/
inductive Ends {α : Type} (w : World) (outcome : Outcome Pi α) (next : α → Pi → World) :
    World → Prop where
  | returned {value : α} {after : Pi} (ran : outcome = .ok value after) :
      Ends w outcome next (next value after)
  | stopped {stop : Stop} {after : Pi} (ran : outcome = .error stop after)
      (other : stop ≠ .blocked) : Ends w outcome next { w with stopped := some stop }

/-- What can happen next, as long as no party has stopped.  The esp of a sender has told it
`SEND OK` before the message is on its way to the other side, and the answer that comes back
is shown behind it.  Nothing keeps an esp from saying more than its lexer can hold. -/
inductive Step (fuel : Nat) (w : World) : World → Prop where
  | serverSends {polls : List Poll} {gap : Gap} {d : Dialog} {w' : World}
      (running : w.stopped = none) (turn : w.server.waiting = false)
      (answers : arriving polls =
        gap.bytes ++ d.bytes 0 (UInt32.ofNat (hello w.server.i).length))
      (ends : Ends { w with server := w.server.tells polls }
        (serverSend fuel w.server.i (hears w.server.pi polls))
        (fun _ after => { w with
          server := { w.server.tells polls with pi := after, waiting := true }
          toClient := w.toClient ++ [lastWritten after] }) w') : Step fuel w w'
  | clientHears {polls : List Poll} {frame : Frame} {rest : List (List UInt8)}
      (running : w.stopped = none) (first : w.toClient = frame.payload :: rest)
      (arrives : arriving polls = frame.bytes) :
      Step fuel w { w with client := w.client.tells polls, toClient := rest }
  | clientReceives {ch : UInt32} {old : List UInt8} {w' : World} (running : w.stopped = none)
      (turn : w.client.buf = none) (size : old.length = 1024)
      (ends : Ends w (clientReceive ch old w.client.pi)
        (fun buf after => { w with
          client := { w.client with pi := after, buf := some buf }
          received := w.received ++ [cString buf] }) w') : Step fuel w w'
  | clientSends {polls : List Poll} {gap : Gap} {d : Dialog} {buf : List UInt8} {w' : World}
      (running : w.stopped = none) (turn : w.client.buf = some buf)
      (answers : arriving polls =
        gap.bytes ++ d.bytes 0 (UInt32.ofNat (cString buf).length))
      (ends : Ends { w with client := w.client.tells polls }
        (clientSend fuel buf (hears w.client.pi polls))
        (fun _ after => { w with
          client := { w.client.tells polls with pi := after, buf := none }
          toServer := w.toServer ++ [lastWritten after] }) w') : Step fuel w w'
  | serverHears {polls : List Poll} {frame : Frame} {rest : List (List UInt8)}
      (running : w.stopped = none) (first : w.toServer = frame.payload :: rest)
      (channel : frame.ch = 0) (arrives : arriving polls = frame.bytes) :
      Step fuel w { w with server := w.server.tells polls, toServer := rest }
  | serverReceives {x : UInt32} {reply : List UInt8} {w' : World} (running : w.stopped = none)
      (turn : w.server.waiting = true) (size : reply.length = 1024)
      (ends : Ends w (serverReceive 0 w.server.i x reply w.server.pi)
        (fun i after => { w with
          server := { w.server with pi := after, i := i, waiting := false }
          passed := w.passed ++ [hello w.server.i] }) w') : Step fuel w w'

/-- A pi whose esp has nothing left to say. -/
def connected : Pi := ⟨⟨LexSimple.init, []⟩, true, (), [], [], []⟩

/-- Both sides are connected. -/
def start : World :=
  ⟨⟨connected, 0, false, 0⟩, ⟨connected, none, 0⟩, [], [], [], [], none⟩

/-- All the esp has said so far. -/
def said (pi : Pi) : List UInt8 := pi.l.buf.stream ++ arriving pi.l.h

/-- There is room for more in the buffer of the lexer, which is never emptied. -/
def Fits (pi : Pi) (polls : List Poll) : Prop :=
  (said pi ++ arriving polls).length < lexMaxbuf

/-- The esp has said this and not been listened to, up to white space. -/
def Unread (pi : Pi) (text : List UInt8) : Prop := Near (said pi) text pi.l

theorem dropWs_append {text other : List UInt8} (same : dropWs text = dropWs other)
    (more : List UInt8) : dropWs (text ++ more) = dropWs (other ++ more) := by
  rw [dropWs, dropWs] at same ⊢
  rw [List.dropWhile_append, List.dropWhile_append, same]

theorem said_hears (pi : Pi) (polls : List Poll) :
    said (hears pi polls) = said pi ++ arriving polls := by
  have arrivingEq : arriving (pi.l.h ++ polls) = arriving pi.l.h ++ arriving polls :=
    List.flatMap_append
  rw [said, said, List.append_assoc, ← arrivingEq]
  rfl

theorem Unread.told {pi : Pi} {text : List UInt8} (unread : Unread pi text) {polls : List Poll}
    (fits : Fits pi polls) : Unread (hears pi polls) (text ++ arriving polls) := by
  obtain ⟨left, ⟨before, buffered, bufEq, unreadEq, inputEq, _⟩, same⟩ := unread
  have arrivingEq : arriving (pi.l.h ++ polls) = arriving pi.l.h ++ arriving polls :=
    List.flatMap_append
  refine ⟨left ++ arriving polls, ⟨before, buffered, bufEq, ?_, ?_, ?_⟩, dropWs_append same _⟩
  · rw [unreadEq, List.append_assoc, ← arrivingEq]
    rfl
  · rw [said_hears, inputEq, List.append_assoc]
  · rw [said_hears]
    exact fits

/-- `esp_is_recv` waits for a message. -/
theorem Unread.waits {pi : Pi} (unread : Unread pi []) (ch : UInt32) (data : List UInt8)
    (maxbytes : UInt32) : ∃ after, espIsRecv ch data maxbytes pi = .error .blocked after := by
  obtain ⟨left, here, same⟩ := unread
  have none : dropWs left = [] := same
  have skipped : Text.skipLeading left = .error .blocked [] := by
    rw [Text.skipLeading_eq, if_pos none]
  have ideal : Text.matchPart (ascii "+IPD,%u,%u:") [.uint ch, .uint 0] left =
      .error .blocked [] := by
    have matched : Text.matchv (ascii "+IPD,%u,%u:") ⟨[.uint ch, .uint 0], 0⟩ left =
        .error .blocked [] := by
      rw [Text.matchv, Prog.bind_of_ok (Prog.get_apply _), Prog.bind_of_error skipped]
    rw [Text.matchPart, Prog.bind_of_error matched]
  have agree := onLex_agrees (e := pi) (here.matchPart (ascii "+IPD,%u,%u:") [.uint ch, .uint 0])
  rw [ideal] at agree
  obtain ⟨after, blocked⟩ := agree.right_of_error
  exact ⟨after, by rw [espIsRecv, Prog.bind_of_error blocked]⟩

section

variable {pi : Pi} {fuel : Nat} {polls : List Poll} {gap : Gap} {d : Dialog}

end

/-! ## Where the message is -/

/-- Everything in a world but the counter. -/
structure Shape (w : World) (waiting : Bool) (buf : Option (List UInt8))
    (toClient toServer : List (List UInt8)) (atServer atClient : List UInt8) (heard : Nat) :
    Prop where
  waiting : w.server.waiting = waiting
  buf : w.client.buf = buf
  toClient : w.toClient = toClient
  toServer : w.toServer = toServer
  atServer : Unread w.server.pi atServer
  atClient : Unread w.client.pi atClient
  received : w.received = (List.range heard).map hello

/-- The one message is in exactly one place. -/
inductive Stage (w : World) : Prop where
  | sending (shape : Shape w false none [] [] [] [] w.server.i)
  | toClient (shape : Shape w true none [hello w.server.i] [] [] [] w.server.i)
  | atClient {frame : Frame} (payload : frame.payload = hello w.server.i)
      (shape : Shape w true none [] [] [] frame.bytes w.server.i)
  | answering {buf : List UInt8} (text : cString buf = hello w.server.i)
      (shape : Shape w true (some buf) [] [] [] [] (w.server.i + 1))
  | toServer (shape : Shape w true none [] [hello w.server.i] [] [] (w.server.i + 1))
  | atServer {frame : Frame} (channel : frame.ch = 0) (payload : frame.payload = hello w.server.i)
      (shape : Shape w true none [] [] frame.bytes [] (w.server.i + 1))

structure Inv (w : World) : Prop where
  stage : Stage w
  running : w.stopped = none
  passed : w.passed = (List.range w.server.i).map hello
  serverWrites : w.server.pi.writes = []
  clientWrites : w.client.pi.writes = []
  serverTold : (said w.server.pi).length = w.server.told
  clientTold : (said w.client.pi).length = w.client.told
  /-- The esp says something in every round. -/
  counted : w.server.i + (if w.server.waiting then 1 else 0) ≤ w.server.told
  small : w.server.told < lexMaxbuf

/-! ## What a step does -/

theorem Ends.eq {α : Type} {w w' : World} {outcome : Outcome Pi α} {next : α → Pi → World}
    (ends : Ends w outcome next w') {value : α} {after : Pi} (ran : outcome = .ok value after) :
    w' = next value after := by
  cases ends with
  | returned returned =>
      rw [ran] at returned
      cases returned
      rfl
  | stopped stops _ =>
      rw [ran] at stops
      cases stops

namespace Stage

variable {w : World}

end Stage

/-- The counts that a call leaves alone when it returns stay the same if it stops. -/
theorem Ends.told {α : Type} {w w' : World} {outcome : Outcome Pi α} {next : α → Pi → World}
    (ends : Ends w outcome next w')
    (same : ∀ value after, (next value after).server.told = w.server.told ∧
      (next value after).client.told = w.client.told) :
    w'.server.told = w.server.told ∧ w'.client.told = w.client.told := by
  cases ends with
  | returned _ => exact same _ _
  | stopped _ _ => exact ⟨rfl, rfl⟩

/-- How many steps are left in the round. -/
def left (w : World) : Nat :=
  if w.server.waiting = false then 6
  else if w.toClient ≠ [] then 5
  else if w.received.length = w.server.i then 4
  else if w.client.buf.isSome then 3
  else if w.toServer ≠ [] then 2
  else 1

/-- Both lexers have room for the rest of a round of so many steps. -/
structure Room (w : World) (steps : Nat) : Prop where
  server : w.server.told + 80 * steps < lexMaxbuf
  client : w.client.told + 80 * steps < lexMaxbuf

theorem Room.below {w : World} {steps : Nat} (room : Room w steps) :
    w.server.told < lexMaxbuf ∧ w.client.told < lexMaxbuf := by
  obtain ⟨server, client⟩ := room
  constructor <;> omega

end Cs140e.Esp.PingPong
