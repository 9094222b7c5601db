import Cs140e.Esp.Consumed

/-!
# Sending data

Whenever `esp_send` returns it has sent the command and then the data, each
after the esp has said what the protocol asks for.
-/

namespace Cs140e.Esp

open Cs140e.Library
open Takes (Behind)

variable {γ : Type} {input : List UInt8}

/-- The command that announces `n` bytes on a channel. -/
def cipsend (ch n : UInt32) : List UInt8 :=
  ascii "AT+CIPSEND=" ++ (Decimal.digits ch.toNat ++ (ascii "," ++ Decimal.digits n.toNat))

theorem length_digits_uint (n : UInt32) : (Decimal.digits n.toNat).length ≤ 10 := by
  have small := n.toNat_lt
  exact Decimal.length_digits_le 9 (by omega)

/-- The command fits in the buffer of `at_cmdv`. -/
theorem snprintf_cipsend (ch n : UInt32) :
    snprintf 512 (ascii "AT+CIPSEND=%u,%u") [.uint ch, .uint n] = cipsend ch n := by
  have full : format (ascii "AT+CIPSEND=%u,%u") [.uint ch, .uint n] = cipsend ch n := by
    have last : Decimal.digits n.toNat ++ [] = Decimal.digits n.toNat := List.append_nil _
    rw [cipsend, ← last]
    rfl
  have first := length_digits_uint ch
  have second := length_digits_uint n
  have literal : (ascii "AT+CIPSEND=").length = 11 := rfl
  have comma : (ascii ",").length = 1 := rfl
  rw [snprintf, full, List.take_of_length_le]
  rw [cipsend, List.length_append, List.length_append, List.length_append, literal, comma]
  omega

theorem espWriteExact_sent {buf : List UInt8} {e after : EspT LexSimple γ} {written : Nat}
    (returned : espWriteExact buf e = .ok written after) :
    after.l = e.l ∧ after.sent = e.sent ++ [(e.l, buf)] := by
  rw [espWriteExact] at returned
  split at returned
  · cases returned
  · rename_i whole
    have all : buf.take (e.writes.headD buf.length) = buf :=
      List.take_of_length_le (by rw [List.length_take] at whole; omega)
    cases returned
    exact ⟨rfl, by rw [all]⟩

theorem cmdPuts_sent {cmd : List UInt8} {e after : EspT LexSimple γ}
    (returned : cmdPuts cmd e = .ok () after) :
    after.l = e.l ∧ after.sent = e.sent ++ [(e.l, cmd ++ [13, 10])] := by
  obtain ⟨_, first, some, bounds⟩ := Prog.ok_of_bind_ok returned
  obtain ⟨_, sameFirst⟩ := Prog.holds_of_assertThat_ok some
  obtain ⟨_, second, fits, writes⟩ := Prog.ok_of_bind_ok bounds
  obtain ⟨_, sameSecond⟩ := Prog.holds_of_assertThat_ok fits
  obtain ⟨written, third, wrote, ends⟩ := Prog.ok_of_bind_ok writes
  rw [sameSecond, sameFirst] at wrote
  split at ends
  · cases ends
  · cases ends
    exact espWriteExact_sent wrote

/-- A command that returned has been sent, echoed and answered. -/
theorem atCmdv_took {fuel : Nat} {handler : HandleOooMsg} {fmt : List UInt8}
    {args : List FormatArg} {e after : EspT LexSimple γ} {result : Bool} (here : OnInput input e)
    (returned : atCmdv fuel handler.run fmt args e = .ok result after) :
    OnInput input after ∧
      after.sent = e.sent ++ [(e.l, snprintf 512 fmt args ++ [13, 10])] ∧
      ∃ echoed answered, e.l.unread = echoed ++ (answered ++ after.l.unread) ∧
        Behind (ShownLine (snprintf 512 fmt args) []) echoed ∧
        Behind (ShownLine (ascii "OK") []) answered := by
  rw [atCmdv, atCmd, doAtCmd] at returned
  generalize snprintf 512 fmt args = cmd at returned ⊢
  obtain ⟨_, first, put, acks⟩ := Prog.ok_of_bind_ok returned
  obtain ⟨same, sent⟩ := cmdPuts_sent put
  obtain ⟨acked, second, ranAck, responds⟩ := Prog.ok_of_bind_ok acks
  have hereFirst : OnInput input first := by
    rw [OnInput, same]
    exact here
  obtain ⟨echoed, tookEcho, behindEcho⟩ := takes_cmdAck fuel handler cmd hereFirst ranAck
  split at responds
  · obtain ⟨answered, tookAnswer, behindAnswer⟩ :=
      takes_cmdResponse fuel (ascii "OK") false tookEcho.kept responds
    refine ⟨tookAnswer.kept, ?_, echoed, answered, ?_, behindEcho, behindAnswer⟩
    · rw [tookAnswer.same, tookEcho.same, sent]
    · have split := tookEcho.split
      have splitMore := tookAnswer.split
      change first.l.unread = echoed ++ second.l.unread at split
      change second.l.unread = answered ++ after.l.unread at splitMore
      rw [← same, split, splitMore]
  · cases responds

/-- A response with one number that returned has stored the number of its last line. -/
theorem takes_cmdResponsef (fuel : Nat) (extraP : Bool) {fmt : List UInt8}
    (one : fmt.count 37 = 1) (value : UInt32) :
    Takes (espView γ input) (cmdResponsef fuel false extraP fmt [.uint value])
      fun result taken => ∃ found, Behind (ShownLine fmt [found]) taken ∧
        result.2 = [.uint found] := by
  have uints : VaList.Uints ⟨[.uint value], 0⟩ := by
    intro cell mem
    exact ⟨value, List.mem_singleton.mp mem⟩
  refine (takes_cmdResponsev extraP fmt fuel uints).bind fun (res, args) taken holds => ?_
  obtain ⟨start, values, length, behind, stores⟩ := holds
  have count : values.length = 1 := by
    obtain ⟨before, last, rfl, ws, shown, blanks, ending, _, _, shows, _⟩ := behind
    rw [shows.count, one]
  obtain ⟨found, rfl⟩ := List.length_eq_one_iff.mp count
  refine Takes.pure ⟨found, ?_, stores.single length⟩
  rwa [List.append_nil]

/-- `cmd_reject_line` never returns. -/
theorem cmdRejectLine_stops {α : Type} {value : α} {after : EspT LexSimple γ}
    (e : EspT LexSimple γ) : cmdRejectLine e ≠ .ok value after := by
  intro returned
  obtain ⟨⟨n, buf⟩, middle, _, ends⟩ := Prog.ok_of_bind_ok returned
  dsimp only at ends
  split at ends
  · cases ends
  · cases ends

/-- The pieces of the input in the order in which a call of `esp_send` takes
them: up to the prompt before the data is sent, and the rest after it. -/
structure SendTook (ch n : UInt32) (start atData after : Lex LexSimple) : Prop where
  before : ∃ echoed answered prompt,
    start.unread = echoed ++ (answered ++ (prompt ++ atData.unread)) ∧
      Behind (ShownLine (cipsend ch n) []) echoed ∧ Behind (ShownLine (ascii "OK") []) answered ∧
        ShownTok (ascii ">") prompt
  behind : ∃ received sent, atData.unread = received ++ (sent ++ after.unread) ∧
    Behind (ShownLine (ascii "Recv %u bytes") [n]) received ∧
      Behind (ShownLine (ascii "SEND OK") []) sent

/-- If `esp_send` returns, it has sent the command and the data and nothing
else, the data after the echo, an OK line and the prompt, and after the data
it has taken a line with the number of bytes and a SEND OK line. -/
theorem esp_send_follows_protocol {fuel : Nat} {handler : HandleOooMsg} {ch n result : UInt32}
    {data : List UInt8} (whole : data.length = n.toNat) {e after : EspT LexSimple γ}
    (here : OnInput input e)
    (returned : espSend fuel handler.run ch data n e = .ok result after) :
    result = n ∧ ∃ atData,
      after.sent = e.sent ++ [(e.l, cipsend ch n ++ [13, 10]), (atData, data)] ∧
        SendTook ch n e.l atData after.l := by
  obtain ⟨_, first, some, announces⟩ := Prog.ok_of_bind_ok returned
  obtain ⟨_, sameFirst⟩ := Prog.holds_of_assertThat_ok some
  obtain ⟨_, second, announced, prompts⟩ := Prog.ok_of_bind_ok announces
  rw [sameFirst] at announced
  obtain ⟨hereSecond, sentCommand, echoed, answered, split, behindEcho, behindAnswer⟩ :=
    atCmdv_took here announced
  rw [snprintf_cipsend] at sentCommand behindEcho
  obtain ⟨found, third, tested, writes⟩ := Prog.ok_of_bind_ok prompts
  obtain ⟨prompt, tookPrompt, isPrompt⟩ :=
    takes_onLex (takes_matchTok (ascii ">")) hereSecond tested
  split at writes
  · case isTrue yes =>
      obtain ⟨written, fourth, wrote, checks⟩ := Prog.ok_of_bind_ok writes
      obtain ⟨sameLex, sentData⟩ := espWriteExact_sent wrote
      have data_eq : data.take n.toNat = data := by rw [← whole, List.take_length]
      rw [data_eq] at sentData
      split at checks
      · cases checks
      · obtain ⟨⟨res, cells⟩, fifth, counted, compares⟩ := Prog.ok_of_bind_ok checks
        have hereFourth : OnInput input fourth := by
          rw [OnInput, sameLex]
          exact tookPrompt.kept
        obtain ⟨received, tookReceived, count, behindCount, cellsEq⟩ :=
          takes_cmdResponsef fuel false (by decide) 0 hereFourth counted
        dsimp only at compares cellsEq
        split at compares
        · cases compares
        · case isFalse equal =>
            rw [not_not, cellsEq] at equal
            cases equal
            obtain ⟨sent, last, done, ends⟩ := Prog.ok_of_bind_ok compares
            obtain ⟨taken, tookSent, behindSent⟩ :=
              takes_cmdResponse fuel (ascii "SEND OK") false tookReceived.kept done
            cases ends
            have splitPrompt : second.l.unread = prompt ++ third.l.unread := tookPrompt.split
            have splitReceived : fourth.l.unread = received ++ fifth.l.unread := tookReceived.split
            have splitSent : fifth.l.unread = taken ++ after.l.unread := tookSent.split
            refine ⟨rfl, third.l, ?_, ?_, ?_⟩
            · rw [tookSent.same, tookReceived.same, sentData, tookPrompt.same, sentCommand,
                List.append_assoc]
              rfl
            · refine ⟨echoed, answered, prompt, ?_, behindEcho, behindAnswer, isPrompt yes⟩
              rw [split, splitPrompt]
            · refine ⟨received, taken, ?_, behindCount, behindSent⟩
              rw [← sameLex, splitReceived, splitSent]
  · exact absurd writes (cmdRejectLine_stops third)

/-- The esp's side of sending two bytes on channel 1. -/
def sendTwo : EspT LexSimple Unit :=
  ⟨⟨LexSimple.init, [.data ⟨ascii "AT+CIPSEND=1,2\r\n\r\nO", by decide, by decide⟩, .quiet,
    .data ⟨ascii "K\r\n> ", by decide, by decide⟩, .quiet,
    .data ⟨ascii "\r\nRecv 2 bytes\r\n\r\nSEND OK\r\n", by decide, by decide⟩]⟩,
    true, (), [], [], []⟩

theorem sendTwo_returns :
    returned? (espSend 50 HandleOooMsg.server.run 1 (ascii "hi") 2 sendTwo) = some 2 := by
  decide +kernel

theorem esp_send_follows_protocol_of_two :
    ∃ result after, espSend 50 HandleOooMsg.server.run 1 (ascii "hi") 2 sendTwo =
        .ok result after ∧ result = 2 ∧ ∃ atData,
      after.sent = sendTwo.sent ++
        [(sendTwo.l, cipsend 1 2 ++ [13, 10]), (atData, ascii "hi")] ∧
          SendTook 1 2 sendTwo.l atData after.l := by
  have returns := sendTwo_returns
  have here : OnInput (arriving sendTwo.l.h) sendTwo := (At.init (by decide)).self
  cases ran : espSend 50 HandleOooMsg.server.run 1 (ascii "hi") 2 sendTwo with
  | error stop after =>
      rw [ran] at returns
      cases returns
  | ok result after =>
      exact ⟨result, after, rfl, esp_send_follows_protocol (by decide) here ran⟩

end Cs140e.Esp
