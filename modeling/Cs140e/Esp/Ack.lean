import Cs140e.Esp.Response

/-!
# Waiting for the echo of a command

`cmd_ack` takes line after line until the command comes back.  It drops blank
lines and busy messages and hands every other line to `handle_ooo_msg`, but a
line that goes on after the command or after a busy message is fatal.
-/

namespace Cs140e.Esp

open Cs140e.Library
open Text (Literal MatchesLine ProperPrefix dropBlankLines dropBlanks strip)

variable {γ : Type} {input : List UInt8}

/-- What becomes of `active_p` and the data of the client when it handles a
line; there is none when it panics. -/
abbrev Effect (γ : Type) := List UInt8 → Bool × γ → Option (Bool × γ)

/-- In front of the line the handler takes the line, with the given effect. -/
def HandlesLine (input : List UInt8) (handleOooMsg : Prog (EspT LexSimple γ) Unit)
    (effect : Effect γ) (line : Line) : Prop :=
  ∀ (e : EspT LexSimple γ) (rest : List UInt8) (state : Bool × γ),
    At input (line.bytes ++ rest) e.l → effect line.text (e.activeP, e.client) = some state →
      ∃ after, handleOooMsg e = .ok () after ∧ AtEol input (line.left ++ rest) after.l ∧
        (after.activeP, after.client) = state

/-- The lines that are handed on. -/
def forwarded (lines : List Line) : List Line :=
  lines.filter fun line => !decide line.Blank && !decide line.Busy

/-- The lines handed on, one after the other. -/
def handleAll (effect : Effect γ) (lines : List Line) (state : Bool × γ) : Option (Bool × γ) :=
  (forwarded lines).foldlM (fun state line => effect line.text state) state

/-! ## One round -/

/-- What a round of `cmd_ack` does in front of a line that is not blank, or of
blank lines before it. -/
inductive AckRound (input : List UInt8) (handleOooMsg : Prog (EspT LexSimple γ) Unit)
    (cmd : List UInt8) (line : Line) (rest : List UInt8) (e : EspT LexSimple γ) :
    Outcome (EspT LexSimple γ) (Option Bool) → Prop where
  | echo {l : Lex LexSimple} (same : strip cmd = strip line.text)
      (there : AtEol input (line.left ++ rest) l) :
      AckRound input handleOooMsg cmd line rest e (.ok (some true) { e with l := l })
  | blank {l : Lex LexSimple} (differs : strip cmd ≠ strip line.text) (here : At input l.unread l)
      (shorter : l.unread.length < e.l.unread.length)
      (same : dropBlankLines l.unread = dropBlankLines e.l.unread) :
      AckRound input handleOooMsg cmd line rest e (.ok none { e with l := l })
  | busy {l : Lex LexSimple} (differs : strip cmd ≠ strip line.text) (busy : line.Busy)
      (clear : line.Clear cmd) (there : AtEol input (line.left ++ rest) l) :
      AckRound input handleOooMsg cmd line rest e (.ok none { e with l := l })
  | forwards {l : Lex LexSimple} (differs : strip cmd ≠ strip line.text) (idle : ¬ line.Busy)
      (clear : line.Clear cmd) (here : At input (line.bytes ++ rest) l) :
      AckRound input handleOooMsg cmd line rest e ((do
        handleOooMsg
        pure none : Prog (EspT LexSimple γ) (Option Bool)) { e with l := l })
  | panics {message : String} {after : EspT LexSimple γ}
      (differs : strip cmd ≠ strip line.text) (longer : ¬ line.Clear cmd) :
      AckRound input handleOooMsg cmd line rest e (.error (.panic message) after)

/-- A message that is the whole line goes on in no other message. -/
theorem busy_not_longer {line : Line} (busy : line.Busy) :
    ∀ message ∈ busyMessages, ¬ ProperPrefix (strip message) (strip line.text) := by
  have all : ∀ whole ∈ busyMessages, ∀ message ∈ busyMessages,
      ¬ ProperPrefix (strip message) (strip whole) := by decide
  obtain ⟨whole, mem, same⟩ := busy
  rw [← same]
  exact all whole mem

theorem clear_of_differs {cmd : List UInt8} {line : Line}
    (differs : ¬ strip cmd <+: strip line.text)
    (notLonger : ∀ message ∈ busyMessages, ¬ ProperPrefix (strip message) (strip line.text)) :
    line.Clear cmd := by
  intro message mem
  rcases List.mem_cons.mp mem with rfl | mem
  · exact fun goesOn => differs goesOn.1
  · exact notLonger message mem

theorem Tried.same_of_missed {unread left : List UInt8} {l : Lex LexSimple}
    (tried : Tried input unread false left l) : At input unread l := by
  cases tried with
  | missed same => exact same

/-- The end of a round, in front of a line that is neither blank nor the command. -/
theorem ackRound_busy {cmd : List UInt8} (handleOooMsg : Prog (EspT LexSimple γ) Unit)
    {line : Line} (nonblank : ¬ line.Blank) {rest : List UInt8} {e : EspT LexSimple γ}
    (front : nextText e = line.bytes ++ rest) (first : dropBlankLines e.l.unread = e.l.unread)
    (differs : strip cmd ≠ strip line.text) (notPrefix : ¬ strip cmd <+: strip line.text)
    {middle : Lex LexSimple} (same : At input e.l.unread middle) :
    AckRound input handleOooMsg cmd line rest e ((do
      if ← onLex matchBusy then pure none
      else
        handleOooMsg
        pure none : Prog (EspT LexSimple γ) (Option Bool)) { e with l := middle }) := by
  rw [nextText] at front
  have busy := onLex_agrees (e := { e with l := middle }) same.tryBusy
  have message := matchBusy_line nonblank rest
  rw [front] at busy
  generalize Text.matchBusy (line.bytes ++ rest) = ideal at busy message
  cases message with
  | whole isBusy =>
      obtain ⟨after, ran, l, rfl, tried⟩ := busy.right_of_ok
      cases tried with
      | found there shorter =>
          rw [Prog.bind_of_ok ran]
          exact .busy differs isBusy (clear_of_differs notPrefix (busy_not_longer isBusy)) there
  | longer isMessage goesOn =>
      obtain ⟨after, stopped⟩ := busy.right_of_error
      rw [Prog.bind_of_error stopped]
      exact .panics differs fun clear => clear _ (List.mem_cons_of_mem _ isMessage) goesOn
  | other notBusy =>
      obtain ⟨after, ran, l, rfl, tried⟩ := busy.right_of_ok
      rw [Prog.bind_of_ok ran, if_neg Bool.false_ne_true]
      rw [← front, first] at tried
      have same : At input (line.bytes ++ rest) l := by
        rw [← front, first]
        exact tried.same_of_missed
      have clear : line.Clear cmd :=
        clear_of_differs notPrefix fun message mem goesOn => notBusy message mem goesOn.1
      exact .forwards differs (Line.not_busy_of_not_prefix notBusy) clear same

theorem ackRound_line {cmd : List UInt8} (literal : Literal cmd)
    (handleOooMsg : Prog (EspT LexSimple γ) Unit) {line : Line} (nonblank : ¬ line.Blank)
    {rest : List UInt8} {e : EspT LexSimple γ} (here : OnInput input e)
    (front : nextText e = line.bytes ++ rest) :
    AckRound input handleOooMsg cmd line rest e (ackRound handleOooMsg cmd e) := by
  rw [nextText] at front
  have echo := onLex_agrees (e := e) (here.tryLine cmd)
  obtain ⟨_, split, line'⟩ := matchLineOnly_bytes literal nonblank rest
  rw [front] at echo
  generalize Text.matchLineOnly cmd (line.bytes ++ rest) = ideal at echo line'
  cases line' with
  | longer goesOn =>
      obtain ⟨after, stopped⟩ := echo.right_of_error
      rw [ackRound, Prog.bind_of_error stopped]
      exact .panics goesOn.2 fun clear => clear cmd List.mem_cons_self goesOn
  | whole same =>
      obtain ⟨after, ran, l, rfl, tried⟩ := echo.right_of_ok
      cases tried with
      | found there shorter =>
          rw [ackRound, Prog.bind_of_ok ran]
          exact .echo same there
  | other notPrefix =>
      have differs := strip_ne_of_not_prefix notPrefix
      obtain ⟨after, ran, l, rfl, tried⟩ := echo.right_of_ok
      rw [← split, ← front] at tried
      have same := tried.same_of_missed
      rw [ackRound, Prog.bind_of_ok ran, if_neg Bool.false_ne_true]
      cases kept : dropBlanks e.l.unread with
      | nil =>
          rw [Text.dropBlankLines_nil kept, split] at front
          exact absurd front.symm (List.append_ne_nil_of_right_ne_nil _ (List.cons_ne_nil _ _))
      | cons c text =>
          cases eol : isEolCh c with
          | true =>
              obtain ⟨after, blank, there⟩ :=
                matchBlankLine_of_blank (e := { e with l := l }) same kept eol
              rw [Prog.bind_of_ok blank]
              refine .blank differs there.self (there.shorter_of_eol kept) ?_
              rw [there.dropBlankLines_unread, Text.dropBlankLines_of_eol kept eol]
          | false =>
              obtain ⟨middle, notBlank, same⟩ :=
                matchBlankLine_of_not (e := { e with l := l }) same kept eol
              rw [Prog.bind_of_ok notBlank, if_neg Bool.false_ne_true]
              have first := Text.dropBlankLines_of_not_eol kept eol
              exact ackRound_busy handleOooMsg nonblank front first differs notPrefix same

/-! ## Whole runs -/

/-- How `cmd_ack` ends when the earlier lines come before the echo. -/
inductive Acknowledged (input cmd : List UInt8) (earlier : List Line) (echo : Line)
    (rest : List UInt8) (final : Bool × γ) : Outcome (EspT LexSimple γ) Bool → Prop where
  | echoed {after : EspT LexSimple γ} (clear : ∀ line ∈ earlier, line.Clear cmd)
      (there : AtEol input (echo.left ++ rest) after.l)
      (state : (after.activeP, after.client) = final) :
      Acknowledged input cmd earlier echo rest final (.ok true after)
  | panics {line : Line} {message : String} {after : EspT LexSimple γ} (mem : line ∈ earlier)
      (longer : ¬ line.Clear cmd) :
      Acknowledged input cmd earlier echo rest final (.error (.panic message) after)

theorem Acknowledged.after {cmd rest : List UInt8} {line echo : Line} {earlier : List Line}
    {final : Bool × γ} {outcome : Outcome (EspT LexSimple γ) Bool}
    (acknowledged : Acknowledged input cmd earlier echo rest final outcome)
    (clear : line.Clear cmd) :
    Acknowledged input cmd (line :: earlier) echo rest final outcome := by
  cases acknowledged with
  | echoed all there state =>
      refine .echoed (fun other mem => ?_) there state
      rcases List.mem_cons.mp mem with rfl | mem
      · exact clear
      · exact all other mem
  | panics mem longer => exact .panics (List.mem_cons_of_mem _ mem) longer

theorem Line.clear_of_blank {cmd : List UInt8} {line : Line} (blank : line.Blank) :
    line.Clear cmd := by
  rintro message _ ⟨prefixed, differs⟩
  rw [blank] at prefixed differs
  exact differs (List.prefix_nil.mp prefixed)

theorem forwarded_of_blank {line : Line} (blank : line.Blank) (lines : List Line) :
    forwarded (line :: lines) = forwarded lines :=
  List.filter_cons_of_neg (by simp [blank])

theorem forwarded_of_busy {line : Line} (busy : line.Busy) (lines : List Line) :
    forwarded (line :: lines) = forwarded lines :=
  List.filter_cons_of_neg (by simp [busy])

theorem forwarded_cons {line : Line} (nonblank : ¬ line.Blank) (idle : ¬ line.Busy)
    (lines : List Line) : forwarded (line :: lines) = line :: forwarded lines :=
  List.filter_cons_of_pos (by simp [nonblank, idle])

section

variable {cmd rest : List UInt8} {handleOooMsg : Prog (EspT LexSimple γ) Unit}
  {effect : Effect γ} {echo : Line} {final : Bool × γ}

theorem cmdAck_acknowledged (literal : Literal cmd) (nonempty : cmd ≠ [])
    (isEcho : strip cmd = strip echo.text) :
    ∀ (fuel : Nat) (earlier : List Line) (e : EspT LexSimple γ), OnInput input e →
      nextText e = dropBlankLines (streamOf earlier ++ (echo.bytes ++ rest)) →
      e.l.unread.length < fuel → (∀ line ∈ earlier, strip cmd ≠ strip line.text) →
      (∀ line ∈ forwarded earlier, HandlesLine input handleOooMsg effect line) →
      handleAll effect earlier (e.activeP, e.client) = some final →
      Acknowledged input cmd earlier echo rest final
        (Prog.repeatUntil (ackRound handleOooMsg cmd) fuel e) := by
  intro fuel
  induction fuel with
  | zero => exact fun _ _ _ _ small => absurd small (Nat.not_lt_zero _)
  | succ fuel ih =>
      intro earlier e here next small notEcho handles handled
      induction earlier with
      | nil =>
          have printed : ¬ echo.Blank := by
            obtain ⟨f, fmt, rfl⟩ := List.exists_cons_of_ne_nil nonempty
            rw [Line.Blank, ← isEcho]
            exact literal.strip_ne_nil
          have front : nextText e = echo.bytes ++ rest := by
            rw [next, streamOf_nil, List.nil_append, Line.dropBlankLines_of_not_blank printed]
          have round := ackRound_line literal handleOooMsg printed here front
          generalize ran : ackRound handleOooMsg cmd e = outcome at round
          cases round with
          | busy differs => exact absurd isEcho differs
          | forwards differs => exact absurd isEcho differs
          | panics differs => exact absurd isEcho differs
          | echo same there =>
              rw [Prog.repeatUntil_of_some fuel ran]
              cases handled
              exact .echoed (fun _ mem => absurd mem List.not_mem_nil) there rfl
          | blank differs => exact absurd isEcho differs
      | cons line more ihMore =>
          by_cases blank : line.Blank
          · rw [streamOf_cons, List.append_assoc, Line.dropBlankLines_of_blank blank] at next
            rw [forwarded_of_blank blank] at handles
            rw [handleAll, forwarded_of_blank blank] at handled
            exact (ihMore next (fun other mem => notEcho other (List.mem_cons_of_mem _ mem)) handles
              handled).after (Line.clear_of_blank blank)
          · have front : nextText e = line.bytes ++ (streamOf more ++ (echo.bytes ++ rest)) := by
              rw [next, streamOf_cons, List.append_assoc, Line.dropBlankLines_of_not_blank blank]
            have length := (Text.dropBlankLines_suffix e.l.unread).length_le
            rw [← nextText, front] at length
            have shorter := line.left_shorter (streamOf more ++ (echo.bytes ++ rest))
            have notEchoMore : ∀ line ∈ more, strip cmd ≠ strip line.text :=
              fun other mem => notEcho other (List.mem_cons_of_mem _ mem)
            have round := ackRound_line literal handleOooMsg blank here front
            generalize ran : ackRound handleOooMsg cmd e = outcome at round
            cases round with
            | echo same => exact absurd same (notEcho line List.mem_cons_self)
            | panics differs longer =>
                rw [Prog.repeatUntil_of_error fuel ran]
                exact .panics List.mem_cons_self longer
            | blank differs there less same =>
                rw [Prog.repeatUntil_of_none fuel ran]
                exact ih (line :: more) _ there (same.trans next) (by dsimp only; omega) notEcho
                  handles handled
            | @busy l differs busy clear there =>
                have bound := there.length_unread
                rw [Prog.repeatUntil_of_none fuel ran]
                rw [forwarded_of_busy busy] at handles
                rw [handleAll, forwarded_of_busy busy] at handled
                refine (ih more { e with l := l } there.self ?_ (by dsimp only; omega) notEchoMore
                  handles handled).after clear
                rw [nextText, there.dropBlankLines_unread, line.dropBlankLines_left]
            | @forwards l differs idle clear there =>
                rw [forwarded_cons blank idle] at handles
                rw [handleAll, forwarded_cons blank idle, List.foldlM_cons] at handled
                obtain ⟨state, effectEq, handled⟩ := Option.bind_eq_some_iff.mp handled
                obtain ⟨after, ranHandler, there, rfl⟩ :=
                  handles line List.mem_cons_self { e with l := l } _ state there effectEq
                rw [Prog.bind_of_ok ranHandler] at ran
                have bound := there.length_unread
                rw [Prog.repeatUntil_of_none fuel ran]
                refine (ih more after there.self ?_ (by omega) notEchoMore
                  (fun other mem => handles other (List.mem_cons_of_mem _ mem)) handled).after clear
                rw [nextText, there.dropBlankLines_unread, line.dropBlankLines_left]

/-- `cmd_ack` waits for its echo, and hands on what comes before, exactly when
no earlier line goes on after the command or after a busy message. -/
theorem ack_waits_for_echo_iff (literal : Literal cmd) (nonempty : cmd ≠ [])
    (isEcho : strip cmd = strip echo.text) {earlier : List Line}
    (notEcho : ∀ line ∈ earlier, strip cmd ≠ strip line.text) {e : EspT LexSimple γ}
    (here : At input (streamOf earlier ++ (echo.bytes ++ rest)) e.l)
    (handles : ∀ line ∈ forwarded earlier, HandlesLine input handleOooMsg effect line)
    (handled : handleAll effect earlier (e.activeP, e.client) = some final) {fuel : Nat}
    (enough : (streamOf earlier ++ (echo.bytes ++ rest)).length < fuel) :
    (∃ after, cmdAck fuel handleOooMsg cmd e = .ok true after ∧
        AtEol input (echo.left ++ rest) after.l ∧ (after.activeP, after.client) = final) ↔
      ∀ line ∈ earlier, line.Clear cmd := by
  have next : nextText e = dropBlankLines (streamOf earlier ++ (echo.bytes ++ rest)) := by
    rw [nextText, here.unread_eq]
  have acknowledged := cmdAck_acknowledged literal nonempty isEcho fuel earlier e here.self next
    (by rwa [here.unread_eq]) notEcho handles handled
  rw [cmdAck]
  generalize Prog.repeatUntil (ackRound handleOooMsg cmd) fuel e = outcome at acknowledged ⊢
  cases acknowledged with
  | echoed clear there state => exact ⟨fun _ => clear, fun _ => ⟨_, rfl, there, state⟩⟩
  | panics mem longer =>
      constructor
      · rintro ⟨after, ⟨⟩, _⟩
      · exact fun clear => absurd (clear _ mem) longer

end

/-! ## The default handler -/

/-- The effect of `default_handle_out_of_order_msg`. -/
def defaultEffect : Effect γ := fun _ state => if state.1 then none else some state

theorem handlesLine_default {line : Line} (nonblank : ¬ line.Blank) :
    HandlesLine (γ := γ) input defaultHandleOutOfOrderMsg defaultEffect line := by
  intro e rest state here effectEq
  cases active : e.activeP with
  | true =>
      rw [defaultEffect, active] at effectEq
      cases effectEq
  | false =>
      have agree := cmdEchoLine_agrees "booting up: ignoring:" here
      rw [takeLine_bytes nonblank rest] at agree
      obtain ⟨after, ran, there⟩ := agree.right_of_ok
      rw [defaultEffect, active, if_neg Bool.false_ne_true] at effectEq
      cases effectEq
      refine ⟨after, (handle_inactive active).trans ran, there, ?_⟩
      rw [cmdEchoLine_frame ran, active]

/-- What the esp says when it has booted. -/
def ready : Line := ⟨ascii "ready", [13, 10], by decide, crlf_ended, crlf_endings, by decide⟩

def echoAt : Line := ⟨ascii "AT", [13, 10], by decide, crlf_ended, crlf_endings, by decide⟩

/-- A line of an earlier command that begins with this one. -/
def staleAt : Line := ⟨ascii "AT+GMR", [13, 10], by decide, crlf_ended, crlf_endings, by decide⟩

theorem handlesLine_forwarded (lines : List Line) :
    ∀ line ∈ forwarded lines,
      HandlesLine (γ := γ) input defaultHandleOutOfOrderMsg defaultEffect line := by
  intro line mem
  have kept := (List.mem_filter.mp mem).2
  refine handlesLine_default fun blank => ?_
  simp [blank] at kept

/-- Both lines, cut in the middle of the echo. -/
def readyThenEcho : List Poll :=
  [.data ⟨ascii "ready\r\nA", by decide, by decide⟩, .quiet,
    .data ⟨ascii "T\r\n", by decide, by decide⟩]

theorem ack_waits_after_ready :
    ∃ after, cmdAck 12 defaultHandleOutOfOrderMsg (ascii "AT")
        (⟨⟨LexSimple.init, readyThenEcho⟩, false, (), [], [], []⟩ : EspT LexSimple Unit) =
          .ok true after ∧
      AtEol (ascii "ready\r\nAT\r\n") (echoAt.left ++ []) after.l ∧
      (after.activeP, after.client) = (false, ()) :=
  have literal : Literal (ascii "AT") := ⟨by decide, by decide⟩
  have isEcho : strip (ascii "AT") = strip echoAt.text := by decide
  have notEcho : ∀ line ∈ [ready], strip (ascii "AT") ≠ strip line.text := by decide
  have clear : ∀ line ∈ [ready], line.Clear (ascii "AT") := by decide
  (ack_waits_for_echo_iff literal (by decide) isEcho notEcho
    (At.init (h := readyThenEcho) (by decide)) (handlesLine_forwarded [ready]) rfl
    (by decide)).mpr clear

/-- The stale line should have been handed on. -/
theorem stale_line_kills_ack :
    (∀ line ∈ [staleAt], strip (ascii "AT") ≠ strip line.text) ∧
      (∀ line ∈ forwarded [staleAt], HandlesLine (γ := Unit) (ascii "AT+GMR\r\nAT\r\n")
        defaultHandleOutOfOrderMsg defaultEffect line) ∧
      handleAll defaultEffect [staleAt] (false, ()) = some (false, ()) ∧
      stopped? (cmdAck 13 defaultHandleOutOfOrderMsg (ascii "AT")
        (⟨⟨LexSimple.init, [.data ⟨ascii "AT+GMR\r\nAT\r\n", by decide, by decide⟩]⟩,
          false, (), [], [], []⟩ : EspT LexSimple Unit)) =
        some (.panic "did not match end of line\n") :=
  ⟨by decide, handlesLine_forwarded [staleAt], rfl, by decide +kernel⟩

end Cs140e.Esp
