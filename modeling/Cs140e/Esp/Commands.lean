import Cs140e.Esp.Run

/-!
# Sending, receiving and out-of-order messages

A translation of `esp_send`, `esp_is_recv` and the handlers of
`esp-commands.c`.  What the server handler would do after its first panic is
left out.
-/

namespace Cs140e.Esp

open Cs140e.Library

variable {B γ : Type} [Lexer B]

/-! ## Out-of-order messages -/

def defaultHandleOutOfOrderMsg : Prog (EspT B γ) Unit := do
  if (← get).activeP then
    throw (.panic "unexpected out of order message\n")
  else
    cmdEchoLine "booting up: ignoring:"

def handleOooServer : Prog (EspT B γ) Unit :=
  throw (.panic "in handle ooo server\n")

def handleOooClient : Prog (EspT B γ) Unit :=
  throw (.panic "client: AFAIK: should never receive unexpected messages.\n")

/-- The functions the repository stores in `handle_ooo_msg`. -/
inductive HandleOooMsg where
  | default
  | server
  | client
  deriving DecidableEq, Repr

def HandleOooMsg.run : HandleOooMsg → Prog (EspT B γ) Unit
  | .default => defaultHandleOutOfOrderMsg
  | .server => handleOooServer
  | .client => handleOooClient

/-! ## Receiving -/

/-- The loop that stores the message, with the rounds left. -/
def recvLoop : Nat → Nat → List UInt8 → Prog (Lex B) (List UInt8)
  | 0, _, data => pure data
  | rounds + 1, i, data => do
      let c ← lexGetc
      let data ← poke data i c
      recvLoop rounds (i + 1) data

structure Received where
  nbytes : UInt32
  ch : UInt32
  data : List UInt8
  deriving DecidableEq, Repr

/-- The return value, `*ch` and the buffer.  The last `esp_debug` is left out: if debugging is on,
it prints the buffer as a string, although the message is not terminated. -/
def espIsRecv (ch : UInt32) (data : List UInt8) (maxbytes : UInt32) : Prog (EspT B γ) Received := do
  let (found, cells) ← onLex (matchPart (ascii "+IPD,%u,%u:") [.uint ch, .uint 0])
  if found then
    match cells with
    | [.uint ch, .uint nbytes] =>
        Prog.assertThat (nbytes > 0) "nbytes>0"
        if nbytes > maxbytes then
          throw (.panic "message is %d bytes long, we have %d space avail\n")
        else
          let data ← onLex (recvLoop nbytes.toNat 0 data)
          pure ⟨nbytes, ch, data⟩
    | _ => throw (.undefined "no variables")
  else
    cmdRejectLine

/-! ## Sending -/

/-- `n` is the number of bytes of `data`. -/
def espSend (fuel : Nat) (handleOooMsg : Prog (EspT B γ) Unit) (ch : UInt32) (data : List UInt8)
    (n : UInt32) : Prog (EspT B γ) UInt32 := do
  Prog.assertThat (n > 0) "n>0"
  let _ ← atCmdv fuel handleOooMsg (ascii "AT+CIPSEND=%u,%u") [.uint ch, .uint n]
  if ← onLex (matchTok (ascii ">")) then
    if (← espWriteExact (data.take n.toNat)) = 0 then
      throw (.panic "write failed\n")
    let (_, cells) ← cmdResponsef fuel false false (ascii "Recv %u bytes") [.uint 0]
    if cells ≠ [.uint n] then
      throw (.panic "wanted to send %d bytes,  sent: %d\n")
    let _ ← cmdResponse fuel (ascii "SEND OK") false false
    pure n
  else
    cmdRejectLine

end Cs140e.Esp
