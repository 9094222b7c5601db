import Cs140e.Esp.Language
import Cs140e.Esp.Response
import Cs140e.Esp.Receive
import Cs140e.Esp.Send

/-!
# The dialog of a send

If the esp answers a send as the protocol asks, then `esp_send` returns,
whatever blank lines there are and however the answers are cut.  The lexer is
that of `LEX_SIMPLE`.
-/

namespace Cs140e.Esp

open Cs140e.Library
open Text (dropWs isWsCh Literal)

variable {γ : Type} {input : List UInt8} {l : Lex LexSimple}

/-! ## White space -/

/-- White space that may stand somewhere. -/
structure Gap where
  bytes : List UInt8
  blank : ∀ c ∈ bytes, isWsCh c = true

def Gap.none : Gap := ⟨[], fun _ mem => absurd mem List.not_mem_nil⟩

/-- The end of a line, and blank lines. -/
structure Break where
  ending : UInt8
  more : Gap
  ended : isEolCh ending = true

def Break.bytes (b : Break) : List UInt8 := b.ending :: b.more.bytes

/-- The text is left unread, up to the white space in front of it. -/
def Near (input text : List UInt8) (l : Lex LexSimple) : Prop :=
  ∃ unread, At input unread l ∧ dropWs unread = dropWs text

theorem At.near {text : List UInt8} (here : At input text l) : Near input text l :=
  ⟨text, here, rfl⟩

theorem AtEol.near {text : List UInt8} (here : AtEol input text l) : Near input text l := by
  obtain ⟨eols, tail, rfl, all, there⟩ := here
  exact ⟨tail, there, (Text.dropWs_eols all tail).symm⟩

theorem Near.of_eq {text other : List UInt8} (near : Near input text l)
    (same : dropWs text = dropWs other) : Near input other l := by
  obtain ⟨unread, here, equal⟩ := near
  exact ⟨unread, here, equal.trans same⟩

theorem dropWs_gap (gap : Gap) (text : List UInt8) : dropWs (gap.bytes ++ text) = dropWs text :=
  Input.dropWhile_append_of_all gap.blank text

namespace Text

variable {text other rest fmt : List UInt8}

theorem skipLeading_congr (same : dropWs other = dropWs text) :
    skipLeading other = skipLeading text := by
  rw [skipLeading_eq, skipLeading_eq, same]

/-- A match is found behind other white space. -/
theorem matchv_congr (same : dropWs other = dropWs text) {args after : VaList}
    (found : matchv fmt args text = .ok (true, after) rest) :
    matchv fmt args other = .ok (true, after) rest := by
  rw [matchv, Prog.bind_of_ok (Prog.get_apply _)] at found ⊢
  obtain ⟨_, middle, skipped, loops⟩ := Prog.ok_of_bind_ok found
  obtain ⟨result, last, looped, ends⟩ := Prog.ok_of_bind_ok loops
  rw [Prog.bind_of_ok ((skipLeading_congr same).trans skipped), Prog.bind_of_ok looped]
  cases matched : result.matched with
  | true =>
      rw [matched] at ends
      exact ends
  | false =>
      rw [matched] at ends
      cases mustMatch : result.mustMatch with
      | true =>
          rw [mustMatch] at ends
          cases ends
      | false =>
          rw [mustMatch] at ends
          cases ends

theorem matchLinev_congr (same : dropWs other = dropWs text) {args after : VaList}
    (found : matchLinev fmt args text = .ok (true, after) rest) :
    matchLinev fmt args other = .ok (true, after) rest := by
  obtain ⟨⟨res, cells⟩, middle, matched, ends⟩ := Prog.ok_of_bind_ok found
  cases res with
  | false => cases ends
  | true =>
      rw [matchLinev, Prog.bind_of_ok (matchv_congr same matched)]
      exact ends

theorem matchTok_congr (same : dropWs other = dropWs text) {tok : List UInt8}
    (found : matchTok tok text = .ok true rest) : matchTok tok other = .ok true rest := by
  rw [matchTok, Prog.bind_of_ok (Prog.get_apply _)] at found ⊢
  obtain ⟨_, middle, skipped, checks⟩ := Prog.ok_of_bind_ok found
  obtain ⟨_, checked, asserted, loops⟩ := Prog.ok_of_bind_ok checks
  obtain ⟨matched, last, looped, ends⟩ := Prog.ok_of_bind_ok loops
  rw [Prog.bind_of_ok ((skipLeading_congr same).trans skipped), Prog.bind_of_ok asserted,
    Prog.bind_of_ok looped]
  cases matched with
  | false => cases ends
  | true =>
      obtain ⟨goesOn, after, looked, ends⟩ := Prog.ok_of_bind_ok ends
      rw [if_pos rfl, Prog.bind_of_ok looked]
      cases goesOn with
      | true => cases ends
      | false => exact ends

/-- A literal format matches itself. -/
theorem matchLinev_literal {fmt : List UInt8} (literal : Literal fmt) (some : fmt ≠ []) (b : Break)
    (rest : List UInt8) : matchLinev fmt ⟨[], 0⟩ (fmt ++ (b.bytes ++ rest)) =
      .ok (true, ⟨[], 0⟩) (b.more.bytes ++ rest) := by
  have onLine : OnLine fmt := fun c mem => (literal.plain c mem).1
  have nonblank : strip fmt ≠ [] := by
    obtain ⟨f, more, rfl⟩ := List.exists_cons_of_ne_nil some
    exact literal.strip_ne_nil
  have matching := matchv_literal literal ⟨[], 0⟩ b.ended onLine nonblank (b.more.bytes ++ rest)
  generalize matched : matchv fmt ⟨[], 0⟩ (fmt ++ b.ending :: (b.more.bytes ++ rest)) = outcome
    at matching
  cases matching with
  | matched left suffix same =>
      have blank : strip left = [] := List.self_eq_append_right.mp same
      rw [matchLinev, Break.bytes, List.cons_append, Prog.bind_of_ok matched]
      change (matchEol >>= _) _ = _
      rw [Prog.bind_of_ok (matchEol_blank b.ended blank)]
      rfl
  | failed differs => exact absurd (List.prefix_refl _) differs

end Text

/-! ## Answers on the lexer -/

section

variable {fmt text rest : List UInt8}

theorem Near.matchLinev {args after : VaList} {b : Break} (near : Near input text l)
    (found : Text.matchLinev fmt args text = .ok (true, after) (b.more.bytes ++ rest)) :
    ∃ l', matchLinev fmt args l = .ok (true, after) l' ∧ Near input rest l' := by
  obtain ⟨unread, here, same⟩ := near
  have agree := here.matchLinev fmt args
  rw [Text.matchLinev_congr same found] at agree
  obtain ⟨l', ran, there⟩ := agree.right_of_ok
  exact ⟨l', ran, there.atEol.near.of_eq (dropWs_gap b.more rest)⟩

theorem Near.matchLineOnly {b : Break} (near : Near input (fmt ++ (b.bytes ++ rest)) l)
    (literal : Literal fmt) (some : fmt ≠ []) :
    ∃ l', matchLineOnly fmt l = .ok true l' ∧ Near input rest l' := by
  obtain ⟨l', ran, there⟩ := near.matchLinev (Text.matchLinev_literal literal some b rest)
  refine ⟨l', ?_, there⟩
  have line : matchLine fmt [] l = .ok (true, []) l' := by
    rw [matchLine, Prog.bind_of_ok ran]
    rfl
  rw [Esp.matchLineOnly, Prog.bind_of_ok line]
  rfl

theorem Near.matchTok {tok : List UInt8} (near : Near input text l)
    (found : Text.matchTok tok text = .ok true rest) :
    ∃ l', matchTok tok l = .ok true l' ∧ Near input rest l' := by
  obtain ⟨unread, here, same⟩ := near
  have agree := here.matchTok tok
  rw [Text.matchTok_congr same found] at agree
  obtain ⟨_, ran, there⟩ := agree.right_of_ok
  exact ⟨_, ran, there.near⟩

end

section

variable {fmt rest : List UInt8} {b : Break} {e : EspT LexSimple γ} {fuel : Nat}

theorem cmdAck_echoed (near : Near input (fmt ++ (b.bytes ++ rest)) e.l) (literal : Literal fmt)
    (some : fmt ≠ []) (enough : 0 < fuel) (handleOooMsg : Prog (EspT LexSimple γ) Unit) :
    ∃ l, cmdAck fuel handleOooMsg fmt e = .ok true { e with l := l } ∧ Near input rest l := by
  obtain ⟨rounds, rfl⟩ := Nat.exists_eq_succ_of_ne_zero (Nat.ne_of_gt enough)
  obtain ⟨l, ran, there⟩ := near.matchLineOnly literal some
  refine ⟨l, Prog.repeatUntil_of_some rounds ?_, there⟩
  rw [ackRound, Prog.bind_of_ok (onLex_of_ok ran)]
  rfl

theorem cmdResponse_ended (near : Near input (fmt ++ (b.bytes ++ rest)) e.l)
    (literal : Literal fmt) (some : fmt ≠ []) (enough : 0 < fuel) (canFailP extraP : Bool) :
    ∃ l, cmdResponse fuel fmt canFailP extraP e = .ok true { e with l := l } ∧
      Near input rest l := by
  obtain ⟨rounds, rfl⟩ := Nat.exists_eq_succ_of_ne_zero (Nat.ne_of_gt enough)
  obtain ⟨l, ran, there⟩ := near.matchLineOnly literal some
  have tried : responseTries fmt canFailP e.l = .ok (.some (.some true)) l := by
    rw [responseTries, Prog.bind_of_ok ran]
    rfl
  refine ⟨l, Prog.repeatUntil_of_some rounds ?_, there⟩
  rw [responseRound, Prog.bind_of_ok (onLex_of_ok tried)]
  rfl

end

/-! ## The number of bytes -/

namespace Text

open Cs140e.Library.Pattern

/-- The format `Recv %u bytes`. -/
def recvItems : List (Item UInt8) :=
  (ascii "Recv").map .char ++
    (.space :: .number :: .space :: .char 98 :: ((ascii "ytes").map .char ++ []))

theorem accepts_chars {chars text rest : List UInt8} {items : List (Item UInt8)}
    {values : List UInt32} (accepts : Accepts parsed items text values rest) :
    Accepts parsed (chars.map .char ++ items) (chars ++ text) values rest := by
  induction chars with
  | nil => exact accepts
  | cons c chars ih =>
      have none : ∀ b ∈ ([] : List UInt8), parsed.blank b = true := fun _ mem => nomatch mem
      have first : Matches parsed (.char c) ([] ++ c :: (chars ++ text)) [] (chars ++ text) :=
        .char none _
      exact .cons first ih

/-- What the esp says about the number of bytes. -/
def recvLine (n : UInt32) : List UInt8 :=
  ascii "Recv" ++ (32 :: (Decimal.digits n.toNat ++ (32 :: ascii "bytes")))

theorem accepts_recvLine (n : UInt32) (rest : List UInt8) :
    Accepts parsed recvItems (recvLine n ++ rest) [n] rest := by
  have space : ∀ b ∈ [32], parsed.blank b = true := by decide
  have word : Accepts parsed (.char 98 :: ((ascii "ytes").map .char ++ []))
      ([32] ++ 98 :: (ascii "ytes" ++ rest)) [] rest :=
    .cons (.char space _) (accepts_chars (.nil rest))
  have number : Matches parsed .number
      ([32] ++ (Decimal.digits n.toNat ++ 32 :: (98 :: (ascii "ytes" ++ rest))))
      [UInt32.ofNat (Decimal.value (Decimal.digits n.toNat))]
      (32 :: (98 :: (ascii "ytes" ++ rest))) :=
    .number space (Frame.digits_isdigit n.toNat) (Decimal.digits_ne_nil n.toNat) rfl _
  rw [Decimal.value_digits, UInt32.ofNat_toNat] at number
  have split : recvLine n ++ rest = ascii "Recv" ++
      ([32] ++ (Decimal.digits n.toNat ++ 32 :: (98 :: (ascii "ytes" ++ rest)))) := by
    rw [recvLine, List.append_assoc, List.cons_append, List.append_assoc]
    rfl
  rw [split]
  exact accepts_chars (.cons (.space _) (.cons number (.cons (.space _) word)))

theorem recvItems_plain : PlainFormat recvItems where
  plain := by
    have letters : ∀ c ∈ ascii "Recvbytes", isSpaceCh c = false ∧ isEolCh c = false ∧ c ≠ 37 := by
      decide
    intro item mem c same
    refine letters c ?_
    rw [same] at mem
    simpa [recvItems, ascii] using mem
  closed := by decide

theorem matchLinev_recvLine (old n : UInt32) (b : Break) (rest : List UInt8) :
    matchLinev (ascii "Recv %u bytes") ⟨[.uint old], 0⟩ (recvLine n ++ (b.bytes ++ rest)) =
      .ok (true, ⟨[.uint n], 1⟩) (b.more.bytes ++ rest) := by
  have ready : Ready ⟨[.uint old], 0⟩ recvItems := by
    exact ⟨fun cell mem => ⟨old, List.mem_singleton.mp mem⟩, Nat.le_refl 1⟩
  have leads : Leads (recvLine n ++ (b.bytes ++ rest)) [] (recvLine n ++ (b.bytes ++ rest)) :=
    ⟨rfl, (fun _ mem => nomatch mem), 82, _, rfl, rfl⟩
  obtain ⟨after, matched, stores⟩ :=
    matchv_accepts recvItems_plain ready leads (accepts_recvLine n (b.bytes ++ rest))
  have cells : after = ⟨[.uint n], 1⟩ := by
    cases stores with
    | cons room more =>
        cases more
        rfl
  have format : formatOf recvItems = ascii "Recv %u bytes" := rfl
  rw [format, cells] at matched
  rw [matchLinev, Prog.bind_of_ok matched]
  change (matchEol >>= _) _ = _
  rw [Break.bytes, List.cons_append]
  have blank : strip [] = [] := rfl
  have ended : matchEol ([] ++ b.ending :: (b.more.bytes ++ rest)) =
      .ok true (b.more.bytes ++ rest) := matchEol_blank b.ended blank
  rw [List.nil_append] at ended
  rw [Prog.bind_of_ok ended]
  rfl

end Text

theorem cmdResponsef_counted {rest : List UInt8} {b : Break} {e : EspT LexSimple γ} {fuel : Nat}
    {n : UInt32} (near : Near input (Text.recvLine n ++ (b.bytes ++ rest)) e.l)
    (enough : 0 < fuel) (old : UInt32) (canFailP extraP : Bool) :
    ∃ l, cmdResponsef fuel canFailP extraP (ascii "Recv %u bytes") [.uint old] e =
        .ok (true, [.uint n]) { e with l := l } ∧ Near input rest l := by
  obtain ⟨rounds, rfl⟩ := Nat.exists_eq_succ_of_ne_zero (Nat.ne_of_gt enough)
  obtain ⟨l, ran, there⟩ := near.matchLinev (Text.matchLinev_recvLine old n b rest)
  have tried : responsevTries canFailP (ascii "Recv %u bytes") ⟨[.uint old], 0⟩ e.l =
      .ok (some (some true), ⟨[.uint n], 1⟩) l := by
    rw [responsevTries, Prog.bind_of_ok ran]
    rfl
  have looped : cmdResponsev canFailP extraP (ascii "Recv %u bytes") (rounds + 1)
      ⟨[.uint old], 0⟩ e = .ok (true, ⟨[.uint n], 1⟩) { e with l := l } := by
    rw [cmdResponsev, Prog.bind_of_ok (onLex_of_ok tried)]
    rfl
  refine ⟨l, ?_, there⟩
  rw [cmdResponsef, Prog.bind_of_ok looped]
  rfl

/-! ## The whole dialog -/

/-- What the esp adds to its answers. -/
structure Dialog where
  echoed : Break
  answered : Break
  prompted : Gap
  counted : Break
  done : Break

/-- What the esp says while `n` bytes are sent. -/
def Dialog.bytes (d : Dialog) (ch n : UInt32) : List UInt8 :=
  cipsend ch n ++ (d.echoed.bytes ++ (ascii "OK" ++ (d.answered.bytes ++ (62 ::
    (d.prompted.bytes ++ (Text.recvLine n ++ (d.counted.bytes ++ (ascii "SEND OK" ++
      d.done.bytes))))))))

theorem literal_cipsend (ch n : UInt32) : Literal (cipsend ch n) where
  plain := by
    have digit (k : Nat) : ∀ f ∈ Decimal.digits k, isEolCh f = false ∧ f ≠ 37 ∧ f ≠ 9 := by
      intro f mem
      have isDigit := Frame.digits_isdigit k f mem
      refine ⟨Text.not_eol_of_digit isDigit, ?_, ?_⟩
      · rintro rfl
        cases isDigit
      · rintro rfl
        cases isDigit
    intro f mem
    rcases List.mem_append.mp mem with command | mem
    · have literal : ∀ f ∈ ascii "AT+CIPSEND=", isEolCh f = false ∧ f ≠ 37 ∧ f ≠ 9 := by decide
      exact literal f command
    rcases List.mem_append.mp mem with channel | mem
    · exact digit _ f channel
    rcases List.mem_cons.mp mem with comma | count
    · rw [comma]
      decide
    · exact digit _ f count
  last := by
    have some := Decimal.digits_ne_nil n.toNat
    obtain ⟨front, d, digits⟩ := List.eq_nil_or_concat (Decimal.digits n.toNat) |>.resolve_left some
    have isDigit := Frame.digits_isdigit n.toNat d (by rw [digits]; simp)
    rw [cipsend, digits, List.concat_eq_append, ← List.append_assoc, ← List.append_assoc,
      ← List.append_assoc, List.getLast?_concat]
    intro last
    rw [Option.some.inj last] at isDigit
    cases isDigit

theorem espWriteExact_whole {e : EspT LexSimple γ} (whole : e.writes = []) (buf : List UInt8) :
    espWriteExact buf e = .ok buf.length { e with sent := e.sent ++ [(e.l, buf)] } := by
  have all : buf.take (e.writes.headD buf.length) = buf := by
    rw [whole]
    exact List.take_length
  rw [espWriteExact, all, if_neg (not_not_intro rfl), whole]
  rw [List.tail_nil, ← whole]

theorem cmdPuts_whole {e : EspT LexSimple γ} (whole : e.writes = []) {cmd : List UInt8}
    (some : cmd.length ≠ 0) (short : cmd.length < 1022) :
    cmdPuts cmd e = .ok () { e with sent := e.sent ++ [(e.l, cmd ++ [13, 10])] } := by
  have positive : ¬ (cmd ++ [13, 10]).length = 0 := by
    rw [List.length_append]
    omega
  rw [cmdPuts, Prog.bind_of_ok (Prog.assertThat_of _ e (decide_eq_true some)),
    Prog.bind_of_ok (Prog.assertThat_of _ e (decide_eq_true short)),
    Prog.bind_of_ok (espWriteExact_whole whole _), if_neg positive]
  rfl

theorem length_cipsend (ch n : UInt32) :
    (cipsend ch n).length ≠ 0 ∧ (cipsend ch n).length < 1022 := by
  have first := length_digits_uint ch
  have second := length_digits_uint n
  have literal : (ascii "AT+CIPSEND=").length = 11 := rfl
  have comma : (ascii ",").length = 1 := rfl
  rw [cipsend, List.length_append, List.length_append, List.length_append, literal, comma]
  omega

theorem atCmdv_answered {e : EspT LexSimple γ} {fuel : Nat} {ch n : UInt32} {rest : List UInt8}
    {echoed answered : Break} (near : Near input (cipsend ch n ++ (echoed.bytes ++
      (ascii "OK" ++ (answered.bytes ++ rest)))) e.l) (whole : e.writes = []) (enough : 0 < fuel)
    (handleOooMsg : Prog (EspT LexSimple γ) Unit) :
    ∃ l, atCmdv fuel handleOooMsg (ascii "AT+CIPSEND=%u,%u") [.uint ch, .uint n] e =
        .ok true { e with l := l, sent := e.sent ++ [(e.l, cipsend ch n ++ [13, 10])] } ∧
      Near input rest l := by
  obtain ⟨some, short⟩ := length_cipsend ch n
  obtain ⟨first, acked, middle⟩ := cmdAck_echoed (e := { e with
      sent := e.sent ++ [(e.l, cipsend ch n ++ [13, 10])] }) near (literal_cipsend ch n)
    (List.ne_nil_of_length_pos (Nat.pos_of_ne_zero some)) enough handleOooMsg
  obtain ⟨last, responded, there⟩ := cmdResponse_ended (e := { e with
      l := first, sent := e.sent ++ [(e.l, cipsend ch n ++ [13, 10])] }) middle
    ⟨by decide, by decide⟩ (List.cons_ne_nil _ _) enough false false
  refine ⟨last, ?_, there⟩
  rw [atCmdv, snprintf_cipsend, atCmd, doAtCmd, Prog.bind_of_ok (cmdPuts_whole whole some short),
    Prog.bind_of_ok acked]
  exact responded

/-- The prompt is followed by white space or by the next line. -/
theorem Text.matchTok_prompt (rest : List UInt8) :
    matchTok (ascii ">") (62 :: rest) = .ok true rest := by
  have skipped : skipLeading (62 :: rest) = .ok () (62 :: rest) := by
    rw [skipLeading_eq, dropWs_cons rest rfl, if_neg (List.cons_ne_nil _ _)]
  rw [matchTok, Prog.bind_of_ok (Prog.get_apply _), Prog.bind_of_ok skipped]
  rfl

/-- If the esp answers as the protocol asks, then `esp_send` sends the command and the data. -/
theorem espSend_answered {e : EspT LexSimple γ} {fuel : Nat} {ch n : UInt32} {data : List UInt8}
    {d : Dialog} {rest : List UInt8} (near : Near input (d.bytes ch n ++ rest) e.l)
    (size : data.length = n.toNat) (some : 0 < n.toNat) (whole : e.writes = [])
    (enough : 0 < fuel) (handleOooMsg : Prog (EspT LexSimple γ) Unit) :
    ∃ atData l, espSend fuel handleOooMsg ch data n e = .ok n
        { e with l := l, sent := e.sent ++ [(e.l, cipsend ch n ++ [13, 10]), (atData, data)] } ∧
      Near input rest l := by
  have split : d.bytes ch n ++ rest = cipsend ch n ++ (d.echoed.bytes ++ (ascii "OK" ++
      (d.answered.bytes ++ (62 :: (d.prompted.bytes ++ (Text.recvLine n ++ (d.counted.bytes ++
        (ascii "SEND OK" ++ (d.done.bytes ++ rest))))))))) := by
    simp only [Dialog.bytes, List.append_assoc, List.cons_append]
  rw [split] at near
  obtain ⟨first, commanded, atPrompt⟩ := atCmdv_answered near whole enough handleOooMsg
  obtain ⟨second, prompted, behind⟩ := atPrompt.matchTok (Text.matchTok_prompt _)
  let sent := e.sent ++ [(e.l, cipsend ch n ++ [13, 10]), (second, data)]
  obtain ⟨third, counted, atDone⟩ := cmdResponsef_counted
    (e := { e with l := second, sent := sent }) (behind.of_eq (dropWs_gap d.prompted _)) enough 0
    false false
  obtain ⟨last, done, there⟩ := cmdResponse_ended (e := { e with l := third, sent := sent }) atDone
    ⟨by decide, by decide⟩ (List.cons_ne_nil _ _) enough false false
  refine ⟨second, last, ?_, there⟩
  have positive : decide (n > 0) = true := decide_eq_true (UInt32.lt_iff_toNat_lt.mpr some)
  have written : espWriteExact (data.take n.toNat)
      { e with l := second, sent := e.sent ++ [(e.l, cipsend ch n ++ [13, 10])] } =
        .ok data.length { e with l := second, sent := sent } := by
    rw [← size, List.take_length]
    have stored := espWriteExact_whole (e := { e with
      l := second, sent := e.sent ++ [(e.l, cipsend ch n ++ [13, 10])] }) whole data
    rw [List.append_assoc] at stored
    exact stored
  have wrote : ¬ data.length = 0 := by omega
  rw [espSend, Prog.bind_of_ok (Prog.assertThat_of _ e positive), Prog.bind_of_ok commanded,
    Prog.bind_of_ok (onLex_of_ok prompted), if_pos rfl, Prog.bind_of_ok written, if_neg wrote]
  change (cmdResponsef fuel false false _ _ >>= _) _ = _
  rw [Prog.bind_of_ok counted]
  change (if [Cell.uint n] ≠ [.uint n] then _ else _ : Prog _ _) _ = _
  rw [if_neg (not_not_intro rfl)]
  exact Prog.bind_of_ok done

/-! ## Sends and messages -/

/-- A message is taken behind white space. -/
theorem Call.run_near (call : Call) {e : EspT LexSimple γ} {rest : List UInt8}
    (near : Near input (call.frame.bytes ++ rest) e.l) :
    ∃ l, call.run e = .ok call.received { e with l := l } ∧ Near input rest l := by
  obtain ⟨unread, here, same⟩ := near
  obtain ⟨ws, split, blank⟩ := Input.dropWhile_split isWsCh unread
  have front : dropWs (call.frame.bytes ++ rest) =
      call.frame.header ++ call.frame.payload ++ rest := by
    rw [Frame.bytes, List.append_assoc, dropWs, Input.dropWhile_append_of_all call.frame.blank]
    rfl
  rw [front] at same
  let behind : Call := { call with frame := { call.frame with blanks := ws, blank := blank } }
  have text : unread = behind.frame.bytes ++ rest := by
    rw [split, ← dropWs, same]
    simp only [Frame.bytes, List.append_assoc]
    rfl
  rw [text] at here
  obtain ⟨l, ran, there⟩ := behind.run_received here
  exact ⟨l, ran, there.near⟩

/-- A call of `esp_send`, with the answers of the esp. -/
structure Sending where
  ch : UInt32
  data : List UInt8
  before : Gap
  dialog : Dialog
  nonempty : data ≠ []
  small : data.length < UInt32.size

namespace Sending

variable (call : Sending)

def n : UInt32 := UInt32.ofNat call.data.length

theorem n_toNat : call.data.length = call.n.toNat :=
  (UInt32.toNat_ofNat_of_lt call.small).symm

def bytes : List UInt8 := call.before.bytes ++ call.dialog.bytes call.ch call.n

/-- What the esp is sent. -/
def written : List (List UInt8) := [cipsend call.ch call.n ++ [13, 10], call.data]

theorem run_near {e : EspT LexSimple γ} {fuel : Nat} {rest : List UInt8}
    (near : Near input (call.bytes ++ rest) e.l) (whole : e.writes = []) (enough : 0 < fuel)
    (handleOooMsg : Prog (EspT LexSimple γ) Unit) :
    ∃ atData l, espSend fuel handleOooMsg call.ch call.data call.n e = .ok call.n
        { e with
          l := l
          sent := e.sent ++ [(e.l, cipsend call.ch call.n ++ [13, 10]), (atData, call.data)] } ∧
      Near input rest l := by
  have some : 0 < call.n.toNat := call.n_toNat ▸ List.length_pos_iff.mpr call.nonempty
  rw [bytes, List.append_assoc] at near
  exact espSend_answered (near.of_eq (dropWs_gap call.before _)) call.n_toNat some whole enough
    handleOooMsg

end Sending

/-- What a program does with the esp once it is connected. -/
inductive Exchange where
  | send (call : Sending)
  | receive (call : Call)

inductive Reply where
  | sent (n : UInt32)
  | got (received : Received)

namespace Exchange

def bytes : Exchange → List UInt8
  | send call => call.bytes
  | receive call => call.frame.bytes

def run (fuel : Nat) (handleOooMsg : Prog (EspT LexSimple γ) Unit) :
    Exchange → Prog (EspT LexSimple γ) Reply
  | send call => do
      let n ← espSend fuel handleOooMsg call.ch call.data call.n
      pure (.sent n)
  | receive call => do
      let received ← espIsRecv call.ch call.data call.maxbytes
      pure (.got received)

def reply : Exchange → Reply
  | send call => .sent call.n
  | receive call => .got call.received

def written : Exchange → List (List UInt8)
  | send call => call.written
  | receive _ => []

theorem run_near (exchange : Exchange) {e : EspT LexSimple γ} {fuel : Nat} {rest : List UInt8}
    (near : Near input (exchange.bytes ++ rest) e.l) (whole : e.writes = []) (enough : 0 < fuel)
    (handleOooMsg : Prog (EspT LexSimple γ) Unit) :
    ∃ after, exchange.run fuel handleOooMsg e = .ok exchange.reply after ∧
      after.sent.map Prod.snd = e.sent.map Prod.snd ++ exchange.written ∧ after.writes = [] ∧
        Near input rest after.l := by
  cases exchange with
  | send call =>
      obtain ⟨atData, l, ran, there⟩ := call.run_near near whole enough handleOooMsg
      refine ⟨_, Prog.bind_of_ok ran, ?_, whole, there⟩
      rw [List.map_append]
      rfl
  | receive call =>
      obtain ⟨l, ran, there⟩ := call.run_near near
      exact ⟨_, Prog.bind_of_ok ran, (List.append_nil _).symm, whole, there⟩

end Exchange

/-- With `LEX_SIMPLE`, in front of the answers and messages that belong to them, however they are
cut, all calls of `esp_send` and `esp_is_recv` return, in any order: each send has sent its command
and its data and nothing else, and each message is received as it is.  All the input together fits
into `LEX_MAXBUF` (this is part of `At`), and the device takes every write as a whole.  Without
them the calls may panic: a write that was cut does, and so does a full lexer, which with the
ring of `LEX_CIRC` may be one burst. -/
theorem exchanges_return {fuel : Nat} (handleOooMsg : Prog (EspT LexSimple γ) Unit)
    (exchanges : List Exchange) {rest : List UInt8} {e : EspT LexSimple γ}
    (here : At input (exchanges.flatMap Exchange.bytes ++ rest) e.l) (whole : e.writes = [])
    (enough : 0 < fuel) :
    ∃ after, exchanges.mapM (Exchange.run fuel handleOooMsg) e =
        .ok (exchanges.map Exchange.reply) after ∧
      after.sent.map Prod.snd = e.sent.map Prod.snd ++ exchanges.flatMap Exchange.written ∧
        Near input rest after.l := by
  have near := here.near
  clear here
  induction exchanges generalizing e with
  | nil => exact ⟨e, rfl, (List.append_nil _).symm, near⟩
  | cons exchange exchanges ih =>
      rw [List.flatMap_cons, List.append_assoc] at near
      obtain ⟨middle, ran, sent, still, there⟩ := exchange.run_near near whole enough handleOooMsg
      obtain ⟨after, ranMore, sentMore, last⟩ := ih still there
      refine ⟨after, ?_, ?_, last⟩
      · rw [List.mapM_cons, Prog.bind_of_ok ran, Prog.bind_of_ok ranMore]
        rfl
      · rw [sentMore, sent, List.flatMap_cons, List.append_assoc]

def crlf : Break := ⟨13, ⟨[10], by decide⟩, rfl⟩

def plainDialog : Dialog := ⟨crlf, crlf, ⟨[32, 13, 10], by decide⟩, crlf, crlf⟩

/-- A send of two bytes, and a message. -/
def sendThenReceive : List Exchange :=
  [.send ⟨1, ascii "ab", crlf.more, plainDialog, by decide, by decide⟩,
    .receive ⟨⟨[10, 13], 1, ascii "cde", by decide, by decide⟩, 7, List.replicate 4 0, 4,
      by decide, by decide⟩]

/-- The answers cut inside a line and inside the message. -/
def sendThenReceiveCut : List Poll :=
  [.data ⟨ascii "\nAT+CIPSEND=1,2\r\nO", by decide, by decide⟩, .quiet,
    .data ⟨ascii "K\r\n> \r\nRecv 2 bytes\r\nSEND OK\r\n\n\r+IPD,1,3:c", by decide, by decide⟩,
    .quiet, .data ⟨ascii "de", by decide, by decide⟩]

theorem exchanges_return_of_two :
    ∃ after, sendThenReceive.mapM (Exchange.run 1 HandleOooMsg.server.run)
        (⟨⟨LexSimple.init, sendThenReceiveCut⟩, true, (), [], [], []⟩ : EspT LexSimple Unit) =
          .ok (sendThenReceive.map Exchange.reply) after ∧
      after.sent.map Prod.snd = [] ++ sendThenReceive.flatMap Exchange.written ∧
        Near (arriving sendThenReceiveCut) [] after.l := by
  have bytes : sendThenReceive.flatMap Exchange.bytes ++ [] = arriving sendThenReceiveCut := by
    decide
  have here : At (arriving sendThenReceiveCut) (sendThenReceive.flatMap Exchange.bytes ++ [])
      ⟨LexSimple.init, sendThenReceiveCut⟩ := by
    rw [bytes]
    exact At.init (by decide)
  exact exchanges_return HandleOooMsg.server.run sendThenReceive 
    (e := ⟨⟨LexSimple.init, sendThenReceiveCut⟩, true, (), [], [], []⟩) here rfl (by decide)

end Cs140e.Esp
