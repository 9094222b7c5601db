import Cs140e.Esp.Numbers
import Cs140e.Esp.RunOnText

/-!
# Receiving messages

The esp sends a message as a header with its channel and its length, and then
its bytes as they are.  `esp_is_recv` gives the bytes back and leaves what
comes after them.
-/

namespace Cs140e.Esp

open Cs140e.Library
open Text (isWsCh)

/-! ## The bytes of a message -/

namespace Text

def recvLoop : Nat → Nat → List UInt8 → Prog (List UInt8) (List UInt8)
  | 0, _, data => pure data
  | rounds + 1, i, data => do
      let c ← Input.next
      let data ← poke data i c
      recvLoop rounds (i + 1) data

/-- The bytes are stored one after the other, whatever they are. -/
theorem recvLoop_append (done old tail payload rest : List UInt8)
    (room : old.length = payload.length) :
    recvLoop payload.length done.length (done ++ (old ++ tail)) (payload ++ rest) =
      .ok (done ++ (payload ++ tail)) rest := by
  induction payload generalizing done old with
  | nil =>
      rw [List.length_eq_zero_iff.mp room]
      rfl
  | cons c payload ih =>
      cases old with
      | nil => cases room
      | cons o old =>
          have poked := poke_done done (old ++ tail) o c (payload ++ rest)
          have took : Input.next (c :: payload ++ rest) = .ok c (payload ++ rest) := rfl
          rw [List.length_cons, recvLoop, Prog.bind_of_ok took, List.cons_append,
            Prog.bind_of_ok poked]
          have looped := ih (done ++ [c]) old (Nat.succ.inj room)
          rw [List.length_append, List.append_assoc done [c] (payload ++ tail)] at looped
          exact looped

end Text

theorem At.recvLoop {input unread : List UInt8} {l : Lex LexSimple} (rounds i : Nat)
    (data : List UInt8) (here : At input unread l) :
    Agree (At input) (Text.recvLoop rounds i data unread) (recvLoop rounds i data l) := by
  induction rounds generalizing unread l i data with
  | zero => exact .returned data here
  | succ rounds ih =>
      exact here.getc.bind fun c _ _ took =>
        (took.poke data i c).bind fun data _ _ stored => ih (i + 1) data stored

/-! ## Frames -/

/-- What announces a message: its channel and its length as they are spelled. -/
def ipdHeader (ch nbytes : List UInt8) : List UInt8 :=
  ascii "+IPD," ++ (ch ++ (ascii "," ++ (nbytes ++ ascii ":")))

/-- The two numbers of a header are stored, whatever numerals spell them. -/
theorem Text.matchvLoop_ipdHeader {c d : List UInt8} (cDigits : ∀ b ∈ c, isdigit b = true)
    (cSome : c ≠ []) (dDigits : ∀ b ∈ d, isdigit b = true) (dSome : d ≠ []) (ch nbytes : UInt32)
    (rest : List UInt8) :
    Text.matchvLoop (ascii "+IPD,%u,%u:") true false false ⟨[.uint ch, .uint nbytes], 0⟩
        (ipdHeader c d ++ rest) =
      .ok ⟨true, true, ⟨[.uint (UInt32.ofNat (Decimal.value c)),
        .uint (UInt32.ofNat (Decimal.value d))], 2⟩⟩ rest := by
  have channel := Text.matchvLoop_uint cDigits cSome (c := 44) (by decide) (ascii ",%u:") false
    false ⟨[.uint ch, .uint nbytes], 0⟩ rfl (d ++ 58 :: rest)
  have length := Text.matchvLoop_uint dDigits dSome (c := 58) (by decide) (ascii ":") false true
    ⟨[.uint (UInt32.ofNat (Decimal.value c)), .uint nbytes], 1⟩ rfl rest
  have text : ipdHeader c d ++ rest =
      43 :: 73 :: 80 :: 68 :: 44 :: (c ++ 44 :: (d ++ 58 :: rest)) := by
    rw [ipdHeader, List.append_assoc, List.append_assoc, List.append_assoc, List.append_assoc]
    rfl
  have format : ascii "+IPD,%u,%u:" = 43 :: 73 :: 80 :: 68 :: 44 :: 37 :: 117 :: ascii ",%u:" :=
    rfl
  have between : ascii ",%u:" = 44 :: 37 :: 117 :: ascii ":" := rfl
  have colon : ascii ":" = [58] := rfl
  rw [text, format, Text.matchvLoop_char rfl rfl (by decide),
    Text.matchvLoop_char rfl rfl (by decide), Text.matchvLoop_char rfl rfl (by decide),
    Text.matchvLoop_char rfl rfl (by decide), Text.matchvLoop_char rfl rfl (by decide), channel,
    between, Text.matchvLoop_char rfl rfl (by decide)]
  refine length.trans ?_
  rw [colon, Text.matchvLoop_char rfl rfl (by decide)]
  rfl

theorem Text.matchPart_ipdHeader {blanks c d : List UInt8} (blank : ∀ b ∈ blanks, isWsCh b = true)
    (cDigits : ∀ b ∈ c, isdigit b = true) (cSome : c ≠ []) (dDigits : ∀ b ∈ d, isdigit b = true)
    (dSome : d ≠ []) (ch nbytes : UInt32) (rest : List UInt8) :
    Text.matchPart (ascii "+IPD,%u,%u:") [.uint ch, .uint nbytes]
        (blanks ++ (ipdHeader c d ++ rest)) =
      .ok (true, [.uint (UInt32.ofNat (Decimal.value c)),
        .uint (UInt32.ofNat (Decimal.value d))]) rest := by
  have skipped : Text.skipLeading (blanks ++ (ipdHeader c d ++ rest)) =
      .ok () (ipdHeader c d ++ rest) := by
    have kept : Text.dropWs (blanks ++ (ipdHeader c d ++ rest)) = ipdHeader c d ++ rest := by
      rw [Text.dropWs, Input.dropWhile_append_of_all blank]
      rfl
    rw [Text.skipLeading_eq, kept, if_neg]
    exact List.cons_ne_nil _ _
  have matched : Text.matchv (ascii "+IPD,%u,%u:") ⟨[.uint ch, .uint nbytes], 0⟩
      (blanks ++ (ipdHeader c d ++ rest)) =
        .ok (true, ⟨[.uint (UInt32.ofNat (Decimal.value c)),
          .uint (UInt32.ofNat (Decimal.value d))], 2⟩) rest := by
    rw [Text.matchv, Prog.bind_of_ok (Prog.get_apply _), Prog.bind_of_ok skipped,
      Prog.bind_of_ok (Text.matchvLoop_ipdHeader cDigits cSome dDigits dSome ch nbytes rest)]
    rfl
  rw [Text.matchPart, Prog.bind_of_ok matched]
  rfl

/-- A message in its frame, with blank lines before it. -/
structure Frame where
  blanks : List UInt8
  ch : UInt32
  payload : List UInt8
  blank : ∀ c ∈ blanks, isWsCh c = true
  nonempty : payload ≠ []

namespace Frame

/-- What `%u,%u:` is printed as. -/
def header (frame : Frame) : List UInt8 :=
  ascii "+IPD," ++ (Decimal.digits frame.ch.toNat ++ (ascii "," ++
    (Decimal.digits frame.payload.length ++ ascii ":")))

def bytes (frame : Frame) : List UInt8 := frame.blanks ++ (frame.header ++ frame.payload)

theorem digits_isdigit (n : Nat) : ∀ c ∈ Decimal.digits n, isdigit c = true :=
  fun c mem => Text.isdigit_iff.mpr (Decimal.isDigit_of_mem c mem)

/-- The header gives back the channel and the length. -/
theorem matchPart_frame (frame : Frame) (ch nbytes : UInt32) (rest : List UInt8) :
    Text.matchPart (ascii "+IPD,%u,%u:") [.uint ch, .uint nbytes] (frame.bytes ++ rest) =
      .ok (true, [.uint frame.ch, .uint (UInt32.ofNat frame.payload.length)])
        (frame.payload ++ rest) := by
  have matched := Text.matchPart_ipdHeader frame.blank (digits_isdigit frame.ch.toNat)
    (Decimal.digits_ne_nil frame.ch.toNat) (digits_isdigit frame.payload.length)
    (Decimal.digits_ne_nil frame.payload.length) ch nbytes (frame.payload ++ rest)
  rw [Decimal.value_digits, Decimal.value_digits, UInt32.ofNat_toNat] at matched
  rw [bytes, List.append_assoc, List.append_assoc]
  exact matched

end Frame

/-! ## Calls -/

/-- A call of `esp_is_recv` with a buffer that has room for the message. -/
structure Call where
  frame : Frame
  ch : UInt32
  data : List UInt8
  maxbytes : UInt32
  fits : frame.payload.length ≤ maxbytes.toNat
  room : maxbytes.toNat ≤ data.length

namespace Call

variable {γ : Type} {input rest : List UInt8} {e : EspT LexSimple γ}

def run (call : Call) : Prog (EspT LexSimple γ) Received :=
  espIsRecv call.ch call.data call.maxbytes

/-- The message in front of what the buffer held behind it. -/
def received (call : Call) : Received where
  nbytes := UInt32.ofNat call.frame.payload.length
  ch := call.frame.ch
  data := call.frame.payload ++ call.data.drop call.frame.payload.length

theorem nbytes_toNat (call : Call) : call.received.nbytes.toNat = call.frame.payload.length := by
  have := call.maxbytes.toNat_lt
  have := call.fits
  rw [received, UInt32.toNat_ofNat']
  exact Nat.mod_eq_of_lt (by omega)

theorem run_received (call : Call) (here : At input (call.frame.bytes ++ rest) e.l) :
    ∃ l, call.run e = .ok call.received { e with l := l } ∧ At input rest l := by
  have header := onLex_agrees (e := e)
    (here.matchPart (ascii "+IPD,%u,%u:") [.uint call.ch, .uint 0])
  rw [call.frame.matchPart_frame] at header
  obtain ⟨_, ranHeader, l, rfl, there⟩ := header.right_of_ok
  have length := call.nbytes_toNat
  have some : 0 < call.frame.payload.length := List.length_pos_iff.mpr call.frame.nonempty
  have positive : decide (call.received.nbytes > 0) = true := by
    rw [decide_eq_true_iff, gt_iff_lt, UInt32.lt_iff_toNat_lt, length]
    exact some
  have small : ¬ call.received.nbytes > call.maxbytes := by
    have := call.fits
    rw [gt_iff_lt, UInt32.lt_iff_toNat_lt, length]
    omega
  have stored : Text.recvLoop call.frame.payload.length 0 call.data
      (call.frame.payload ++ rest) = .ok call.received.data rest := by
    have room : (call.data.take call.frame.payload.length).length =
        call.frame.payload.length := by
      have := call.fits
      have := call.room
      rw [List.length_take]
      omega
    have looped := Text.recvLoop_append [] _ (call.data.drop call.frame.payload.length)
      call.frame.payload rest room
    rw [List.nil_append, List.take_append_drop] at looped
    exact looped
  have payload := onLex_agrees (e := { e with l := l })
    (there.recvLoop call.frame.payload.length 0 call.data)
  rw [stored] at payload
  obtain ⟨_, ranPayload, l', rfl, last⟩ := payload.right_of_ok
  rw [← length] at ranPayload
  refine ⟨l', ?_, last⟩
  rw [run, espIsRecv, Prog.bind_of_ok ranHeader]
  change (Prog.assertThat (decide (call.received.nbytes > 0)) "nbytes>0" >>= _) _ = _
  rw [Prog.bind_of_ok (Prog.assertThat_of _ _ positive)]
  change (if call.received.nbytes > call.maxbytes then _ else _ : Prog _ _) _ = _
  rw [if_neg small]
  exact Prog.bind_of_ok ranPayload

/-- A sequence of calls takes a sequence of messages. -/
theorem mapM_run_received {γ : Type} {input : List UInt8} (calls : List Call) (rest : List UInt8)
    (e : EspT LexSimple γ)
    (here : At input (calls.flatMap (fun call => call.frame.bytes) ++ rest) e.l) :
    ∃ l, calls.mapM run e = .ok (calls.map received) { e with l := l } ∧ At input rest l := by
  induction calls generalizing e with
  | nil => exact ⟨e.l, rfl, here⟩
  | cons call calls ih =>
      rw [List.flatMap_cons, List.append_assoc] at here
      obtain ⟨l, ran, there⟩ := call.run_received here
      obtain ⟨l', ranMore, last⟩ := ih { e with l := l } there
      refine ⟨l', ?_, last⟩
      rw [List.mapM_cons, Prog.bind_of_ok ran, Prog.bind_of_ok ranMore]
      rfl

end Call

/-- `esp_is_recv` gives back the channel and the bytes of a message, writes
nothing behind them in the buffer and leaves what follows unread; so it takes
any sequence of messages one by one. -/
theorem esp_is_recv_undoes_framing {γ : Type} {input rest : List UInt8} (calls : List Call)
    {e : EspT LexSimple γ}
    (here : At input (calls.flatMap (fun call => call.frame.bytes) ++ rest) e.l) :
    ∃ l, calls.mapM (fun call => espIsRecv call.ch call.data call.maxbytes) e =
        .ok (calls.map Call.received) { e with l := l } ∧
      At input rest l ∧
      ∀ call ∈ calls, call.received.nbytes.toNat = call.frame.payload.length ∧
        call.received.ch = call.frame.ch ∧
          call.received.data.take call.frame.payload.length = call.frame.payload ∧
            call.received.data.drop call.frame.payload.length =
              call.data.drop call.frame.payload.length := by
  obtain ⟨l, ran, there⟩ := Call.mapM_run_received calls rest e here
  refine ⟨l, ran, there, fun call _ => ⟨call.nbytes_toNat, rfl, ?_, ?_⟩⟩
  · rw [Call.received, List.take_left]
  · rw [Call.received, List.drop_left]

/-- Two messages: one looks like blank lines and another header, one is no text. -/
def twoCalls : List Call :=
  [⟨⟨[13, 10], 0, ascii "\r\n +IPD,", by decide, by decide⟩, 7, List.replicate 16 1, 16,
      by decide, by decide⟩,
    ⟨⟨[32, 10], 4, [0, 255], by decide, by decide⟩, 7, List.replicate 2 1, 2, by decide, by decide⟩]

/-- The messages cut inside the first header and inside the first message. -/
def twoCallsCut : List Poll :=
  [.data ⟨ascii "\r\n+IPD,0,", by decide, by decide⟩, .quiet,
    .data ⟨ascii "8:\r\n +I", by decide, by decide⟩, .quiet,
    .data ⟨ascii "PD, \n+IPD,4,2:" ++ [0, 255, 79, 75], by decide, by decide⟩]

theorem esp_is_recv_undoes_framing_of_two :
    ∃ l, twoCalls.mapM (fun call => espIsRecv call.ch call.data call.maxbytes)
        (⟨⟨LexSimple.init, twoCallsCut⟩, true, (), [], [], []⟩ : EspT LexSimple Unit) =
          .ok (twoCalls.map Call.received) ⟨l, true, (), [], [], []⟩ ∧
      At (arriving twoCallsCut) (ascii "OK") l := by
  have bytes : arriving twoCallsCut =
      twoCalls.flatMap (fun call => call.frame.bytes) ++ ascii "OK" := by decide
  have here : At (arriving twoCallsCut)
      (twoCalls.flatMap (fun call => call.frame.bytes) ++ ascii "OK")
      ⟨LexSimple.init, twoCallsCut⟩ := by
    rw [← bytes]
    exact At.init (by decide)
  obtain ⟨l, ran, there, _⟩ := esp_is_recv_undoes_framing twoCalls
    (e := ⟨⟨LexSimple.init, twoCallsCut⟩, true, (), [], [], []⟩) here
  exact ⟨l, ran, there⟩

end Cs140e.Esp
