import Cs140e.Esp.Commands

/-!
# Commands that are too long

The macros `cmd_putsv`, `at_cmdv` and `at_cmd_extrav` of `esp-run.h` and the two
commands that connect to a wifi.  The macros format a command into 512 bytes and
take a negative result of `snprintf` for an overflow.  `snprintf` returns the
length of the full text, so a longer command is cut off and sent.  All texts are
those of C strings, without the NUL.
-/

namespace Cs140e.Esp

open Cs140e.Library

/-! ## The macros -/

/-- `snprintf(buf, size, ...)` for a full text: the value that is returned and
the string in `buf`. -/
def snprintfOf (size : Nat) (full : List UInt8) : Int × List UInt8 :=
  (full.length, full.take (size - 1))

section

variable {B γ α : Type}

/-- What the macros have in common; the command goes to `issue`. -/
def formatted (full : List UInt8) (issue : List UInt8 → Prog (EspT B γ) α) :
    Prog (EspT B γ) α := do
  let (n, buf) := snprintfOf 512 full
  if n < 0 then throw (.panic "overflowed buffer <%s>\n")
  issue buf

/-- `cmd_putsv`; the full text of a format is what `printf` makes of it. -/
def cmdPutsv {Args : Type} (printf : List UInt8 → Args → List UInt8) (fmt : List UInt8)
    (args : Args) : Prog (EspT B γ) Unit :=
  formatted (printf fmt args) cmdPuts

variable [Lexer B]

def atCmdExtra (fuel : Nat) (handleOooMsg : Prog (EspT B γ) Unit) (cmd response : List UInt8) :
    Prog (EspT B γ) Bool :=
  doAtCmd fuel handleOooMsg cmd response true

/-- `at_cmdv` for any `printf`. -/
def atCmdvBy {Args : Type} (printf : List UInt8 → Args → List UInt8) (fuel : Nat)
    (handleOooMsg : Prog (EspT B γ) Unit) (fmt : List UInt8) (args : Args) :
    Prog (EspT B γ) Bool :=
  formatted (printf fmt args) fun buf => atCmd fuel handleOooMsg buf (ascii "OK")

def atCmdExtrav {Args : Type} (printf : List UInt8 → Args → List UInt8) (fuel : Nat)
    (handleOooMsg : Prog (EspT B γ) Unit) (fmt : List UInt8) (args : Args) :
    Prog (EspT B γ) Bool :=
  formatted (printf fmt args) fun buf => atCmdExtra fuel handleOooMsg buf (ascii "OK")

/-- What follows in `do_at_cmd` when the command has been written.  The command is the format
that `cmd_ack` matches the echo against, so a `%` in it is not matched as it is written. -/
def awaits (fuel : Nat) (handleOooMsg : Prog (EspT B γ) Unit) (cmd : List UInt8)
    (extraP : Bool) : Prog (EspT B γ) Bool := do
  if ← cmdAck fuel handleOooMsg cmd then
    cmdResponse fuel (ascii "OK") false extraP
  else
    throw (.panic "error issuing cmd <%s>!\n")

theorem doAtCmd_eq (fuel : Nat) (handleOooMsg : Prog (EspT B γ) Unit) (cmd : List UInt8)
    (extraP : Bool) :
    doAtCmd fuel handleOooMsg cmd (ascii "OK") extraP =
      cmdPuts cmd >>= fun _ => awaits fuel handleOooMsg cmd extraP := rfl

end

/-! ## The wifi commands -/

section

variable {B γ : Type} [Lexer B]

/-- What `esp_setup_wifi` does after its first command. -/
def espSetupMode (fuel : Nat) (handleOooMsg : Prog (EspT B γ) Unit) (res : Bool) :
    Prog (EspT B γ) Bool := do
  if res then
    if ← atCmd fuel handleOooMsg (ascii "AT+CWMODE=3") (ascii "OK") then
      atCmdExtra fuel handleOooMsg (ascii "AT+CIFSR") (ascii "OK")
    else pure false
  else pure false

/-- `e->wifi` and `e->password` are parameters. -/
def espSetupWifi (fuel : Nat) (handleOooMsg : Prog (EspT B γ) Unit)
    (wifi password : List UInt8) : Prog (EspT B γ) Bool := do
  Prog.assertThat (!(← get).activeP) "!e->active_p"
  Prog.assertThat (password.length ≥ 8) "strlen(e->password) >= 8"
  let res ← atCmdvBy format fuel handleOooMsg (ascii "AT+CWSAP=\"%s\",\"%s\",5,3")
    [.str wifi, .str password]
  espSetupMode fuel handleOooMsg res

def espConnectToWifi (fuel : Nat) (handleOooMsg : Prog (EspT B γ) Unit)
    (wifi password : List UInt8) : Prog (EspT B γ) Bool := do
  if ← atCmd fuel handleOooMsg (ascii "AT+CWMODE=1") (ascii "OK") then
    atCmdExtrav format fuel handleOooMsg (ascii "AT+CWJAP=\"%s\",\"%s\"")
      [.str wifi, .str password]
  else pure false

end

/-! ## What is written -/

section

variable {B γ α β : Type}

/-- All bytes that have reached the device. -/
def EspT.onWire (e : EspT B γ) : List UInt8 := e.sent.flatMap Prod.snd

/-- The state when the device has taken all of a command and its end of line. -/
def EspT.wrote (e : EspT B γ) (cmd : List UInt8) : EspT B γ :=
  { e with sent := e.sent ++ [(e.l, cmd ++ [13, 10])], writes := e.writes.tail }

/-- The device takes all of a next write of `count` bytes. -/
def TakesAll (e : EspT B γ) (count : Nat) : Prop := count ≤ e.writes.headD count

/-- The device takes nothing of a next write that is not empty. -/
def TakesNothing (e : EspT B γ) : Prop := e.writes.head? = some 0

/-- A panic before anything is written. -/
def PanicsFirst (program : Prog (EspT B γ) α) (e : EspT B γ) : Prop :=
  ∃ message after, program e = .error (.panic message) after ∧ after.onWire = e.onWire

/-- A command is complete: the program panics before anything is written, or it
writes exactly the command and its end of line and goes on with `next`. -/
def Complete (cmd : List UInt8) (program next : Prog (EspT B γ) α) (e : EspT B γ) : Prop :=
  PanicsFirst program e ∨ program e = next (e.wrote cmd)

/-- A program that writes what is in the buffer of a macro and goes on. -/
def issues (next : List UInt8 → Prog (EspT B γ) α) (buf : List UInt8) : Prog (EspT B γ) α :=
  cmdPuts buf >>= fun _ => next buf

theorem PanicsFirst.bind {program : Prog (EspT B γ) α} {e : EspT B γ}
    (panics : PanicsFirst program e) (next : α → Prog (EspT B γ) β) :
    PanicsFirst (program >>= next) e := by
  obtain ⟨message, after, stopped, same⟩ := panics
  exact ⟨message, after, Prog.bind_of_error stopped, same⟩

@[simp]
theorem onWire_wrote (e : EspT B γ) (cmd : List UInt8) :
    (e.wrote cmd).onWire = e.onWire ++ (cmd ++ [13, 10]) := by
  simp [EspT.wrote, EspT.onWire]

theorem wrote_injective {e : EspT B γ} {cmd other : List UInt8}
    (same : e.wrote cmd = e.wrote other) : cmd = other := by
  have wire := congrArg EspT.onWire same
  simpa using wire

theorem espWriteExact_takes {e : EspT B γ} {buf : List UInt8} (takes : TakesAll e buf.length) :
    espWriteExact buf e =
      .ok buf.length { e with sent := e.sent ++ [(e.l, buf)], writes := e.writes.tail } := by
  have all : buf.take (e.writes.headD buf.length) = buf := List.take_of_length_le takes
  rw [espWriteExact, all, if_neg (not_not_intro rfl)]

/-- A write that is cut short panics, after what the device took. -/
theorem espWriteExact_short {e : EspT B γ} {buf : List UInt8} (short : ¬ TakesAll e buf.length) :
    ∃ message after, espWriteExact buf e = .error (.panic message) after ∧
      after.onWire = e.onWire ++ buf.take (e.writes.headD buf.length) := by
  have less : e.writes.headD buf.length < buf.length := Nat.lt_of_not_le short
  refine ⟨"could not write <%d> bytes, have: %d\n",
    { e with sent := e.sent ++ [(e.l, buf.take (e.writes.headD buf.length))],
             writes := e.writes.tail }, ?_, ?_⟩
  · rw [espWriteExact, if_pos (by rw [List.length_take]; omega)]
  · simp [EspT.onWire]

theorem cmdPuts_empty (e : EspT B γ) : PanicsFirst (cmdPuts []) e := ⟨"n", e, rfl, rfl⟩

/-- A command that is not empty and fits in the 1024 bytes is written. -/
theorem cmdPuts_fits (e : EspT B γ) {cmd : List UInt8} (some : cmd ≠ [])
    (fits : cmd.length < 1024 - 2) :
    cmdPuts cmd e = (espWriteExact (cmd ++ [13, 10]) >>= fun n =>
      if n = 0 then throw (.panic "write failed\n") else pure ()) e := by
  have nonempty : cmd.length ≠ 0 := mt List.length_eq_zero_iff.mp some
  rw [cmdPuts, Prog.bind_of_ok (Prog.assertThat_of _ _ (decide_eq_true nonempty)),
    Prog.bind_of_ok (Prog.assertThat_of _ _ (decide_eq_true fits))]

theorem cmdPuts_takes {e : EspT B γ} {cmd : List UInt8} (some : cmd ≠ [])
    (fits : cmd.length < 1024 - 2) (takes : TakesAll e (cmd.length + 2)) :
    cmdPuts cmd e = .ok () (e.wrote cmd) := by
  have all : TakesAll e (cmd ++ [13, 10]).length := by simpa using takes
  have written : (cmd ++ [13, 10]).length ≠ 0 := by simp
  rw [cmdPuts_fits e some fits, Prog.bind_of_ok (espWriteExact_takes all), if_neg written]
  rfl

theorem cmdPuts_short {e : EspT B γ} {cmd : List UInt8} (some : cmd ≠ [])
    (fits : cmd.length < 1024 - 2) (short : ¬ TakesAll e (cmd.length + 2)) :
    ∃ message after, cmdPuts cmd e = .error (.panic message) after ∧
      (after.onWire = e.onWire ↔ TakesNothing e) := by
  have less : ¬ TakesAll e (cmd ++ [13, 10]).length := by simpa using short
  obtain ⟨message, after, stopped, wire⟩ := espWriteExact_short less
  refine ⟨message, after, ?_, ?_⟩
  · rw [cmdPuts_fits e some fits, Prog.bind_of_error stopped]
  · rw [wire, List.append_right_eq_self, List.take_eq_nil_iff, TakesNothing]
    unfold TakesAll at less
    cases limits : e.writes with
    | nil => simp [limits] at less
    | cons limit rest => simp

section

variable (next : List UInt8 → Prog (EspT B γ) α)

theorem issues_empty (e : EspT B γ) : PanicsFirst (issues next []) e := (cmdPuts_empty e).bind _

theorem issues_takes {e : EspT B γ} {cmd : List UInt8} (some : cmd ≠ [])
    (fits : cmd.length < 1024 - 2) (takes : TakesAll e (cmd.length + 2)) :
    issues next cmd e = next cmd (e.wrote cmd) := by
  rw [issues, Prog.bind_of_ok (cmdPuts_takes some fits takes)]

theorem issues_short {e : EspT B γ} {cmd : List UInt8} (some : cmd ≠ [])
    (fits : cmd.length < 1024 - 2) (short : ¬ TakesAll e (cmd.length + 2)) :
    ∃ message after, issues next cmd e = .error (.panic message) after ∧
      (after.onWire = e.onWire ↔ TakesNothing e) := by
  obtain ⟨message, after, stopped, wire⟩ := cmdPuts_short some fits short
  exact ⟨message, after, Prog.bind_of_error stopped, wire⟩

end

/-! ## Complete commands -/

/-- What is left of a command always fits in the buffer of `cmd_puts`. -/
theorem length_cut (full : List UInt8) : (full.take 511).length < 1024 - 2 := by
  rw [List.length_take]
  omega

theorem formatted_eq (full : List UInt8) (issue : List UInt8 → Prog (EspT B γ) α) :
    formatted full issue = issue (full.take 511) := by
  have positive : ¬ (full.length : Int) < 0 := by omega
  rw [formatted, snprintfOf]
  dsimp only
  rw [if_neg positive]

/-- When a macro sends a complete command or none. -/
def Accepted (full : List UInt8) (e : EspT B γ) : Prop :=
  full = [] ∨ TakesNothing e ∨ full.length ≤ 511 ∧ TakesAll e (full.length + 2)

theorem complete_of_accepted {full : List UInt8} {e : EspT B γ} (accepted : Accepted full e)
    (next : List UInt8 → Prog (EspT B γ) α) :
    Complete full (formatted full (issues next)) (next full) e := by
  rw [formatted_eq]
  by_cases some : full = []
  · subst some
    exact .inl (issues_empty next e)
  have cutSome : full.take 511 ≠ [] := by simp [some]
  rcases accepted with none | nothing | ⟨short, takes⟩
  · exact absurd none some
  · have less : ¬ TakesAll e ((full.take 511).length + 2) := by
      unfold TakesAll
      rw [List.headD_eq_head?_getD, nothing]
      exact Nat.not_succ_le_zero _
    obtain ⟨message, after, stopped, wire⟩ := issues_short next cutSome (length_cut full) less
    exact .inl ⟨message, after, stopped, wire.mpr nothing⟩
  · rw [List.take_of_length_le short]
    exact .inr (issues_takes next some (by omega) takes)

/-- A program that neither acts nor panics: it returns, or has no fuel left. -/
def Idle (program : Prog (EspT B γ) α) : Prop :=
  (∃ value, ∀ e, program e = .ok value e) ∨ ∀ e, program e = .error .outOfFuel e

theorem Idle.state {program other : Prog (EspT B γ) α} (idle : Idle program)
    (otherIdle : Idle other) {e after : EspT B γ} (same : program e = other after) :
    e = after := by
  rcases idle with ⟨value, returns⟩ | stops <;>
    rcases otherIdle with ⟨value', returns'⟩ | stops'
  · rw [returns, returns'] at same
    exact (EStateM.Result.ok.inj same).2
  · rw [returns, stops'] at same
    cases same
  · rw [stops, returns'] at same
    cases same
  · rw [stops, stops'] at same
    exact (EStateM.Result.error.inj same).2

theorem Idle.no_panic {program : Prog (EspT B γ) α} (idle : Idle program)
    {e after : EspT B γ} {message : String} : program e ≠ .error (.panic message) after := by
  intro stopped
  rcases idle with ⟨value, returns⟩ | stops
  · rw [returns] at stopped
    cases stopped
  · rw [stops] at stopped
    cases stopped

/-- A program that goes on with something idle shows whether the command is
complete. -/
theorem accepted_of_complete {full : List UInt8} {e : EspT B γ}
    {next : List UInt8 → Prog (EspT B γ) α} (idle : ∀ buf, Idle (next buf))
    (complete : Complete full (formatted full (issues next)) (next full) e) :
    Accepted full e := by
  by_cases some : full = []
  · exact .inl some
  have cutSome : full.take 511 ≠ [] := by simp [some]
  have fits := length_cut full
  rw [formatted_eq] at complete
  by_cases takes : TakesAll e ((full.take 511).length + 2)
  · have ran := issues_takes next cutSome fits takes
    rcases complete with ⟨message, after, stopped, _⟩ | same
    · rw [ran] at stopped
      exact absurd stopped (idle _).no_panic
    · rw [ran] at same
      have whole : full.take 511 = full := wrote_injective ((idle _).state (idle _) same)
      rw [whole] at takes
      exact .inr (.inr ⟨List.take_eq_self_iff full |>.mp whole, takes⟩)
  · obtain ⟨message, after, ran, wire⟩ := issues_short next cutSome fits takes
    rcases complete with ⟨message', after', stopped, same⟩ | same
    · rw [ran] at stopped
      cases stopped
      exact .inr (.inl (wire.mp same))
    · rw [ran] at same
      exact absurd same.symm (idle _).no_panic

theorem cmdPuts_complete_iff {full : List UInt8} {e : EspT B γ} :
    Complete full (formatted full cmdPuts) (pure ()) e ↔ Accepted full e := by
  have same : (cmdPuts : List UInt8 → Prog (EspT B γ) Unit) = issues fun _ => pure () := by
    funext buf
    exact (bind_pure (cmdPuts buf)).symm
  rw [same]
  constructor
  · intro complete
    exact accepted_of_complete (fun _ => .inl ⟨(), fun _ => rfl⟩) complete
  · intro accepted
    exact complete_of_accepted accepted fun _ => pure ()

section

variable [Lexer B] {full : List UInt8} {e : EspT B γ}

theorem idle_awaits (handleOooMsg : Prog (EspT B γ) Unit) (cmd : List UInt8) (extraP : Bool)
    (next : Bool → Prog (EspT B γ) α) : Idle (awaits 0 handleOooMsg cmd extraP >>= next) :=
  .inr fun _ => rfl

/-- A macro that awaits the echo, whatever it does with the result. -/
theorem awaiting_complete_iff (handleOooMsg : Prog (EspT B γ) Unit) (extraP : Bool)
    (next : Nat → Bool → Prog (EspT B γ) α) :
    (∀ fuel, Complete full
      (formatted full (issues fun buf => awaits fuel handleOooMsg buf extraP >>= next fuel))
      (awaits fuel handleOooMsg full extraP >>= next fuel) e) ↔ Accepted full e := by
  constructor
  · intro complete
    exact accepted_of_complete (fun buf => idle_awaits handleOooMsg buf extraP (next 0))
      (complete 0)
  · intro accepted fuel
    exact complete_of_accepted accepted fun buf => awaits fuel handleOooMsg buf extraP >>= next fuel

theorem doAtCmd_complete_iff (handleOooMsg : Prog (EspT B γ) Unit) (extraP : Bool) :
    (∀ fuel, Complete full
      (formatted full fun buf => doAtCmd fuel handleOooMsg buf (ascii "OK") extraP)
      (awaits fuel handleOooMsg full extraP) e) ↔ Accepted full e := by
  have complete :=
    @awaiting_complete_iff B γ Bool _ full e handleOooMsg extraP fun _ res => pure res
  simp only [bind_pure] at complete
  exact complete

end

/-- Each of the macros panics before anything is written or sends the complete
command and awaits its echo if and only if the full text is empty, the device
takes nothing, or the text has at most 511 characters and the device takes all
of it. -/
theorem formatted_commands_complete_iff {Args : Type} [Lexer B]
    (printf : List UInt8 → Args → List UInt8) (handleOooMsg : Prog (EspT B γ) Unit)
    (fmt : List UInt8) (args : Args) (e : EspT B γ) :
    (Complete (printf fmt args) (cmdPutsv printf fmt args) (pure ()) e ↔
        Accepted (printf fmt args) e) ∧
      ((∀ fuel, Complete (printf fmt args) (atCmdvBy printf fuel handleOooMsg fmt args)
          (awaits fuel handleOooMsg (printf fmt args) false) e) ↔
        Accepted (printf fmt args) e) ∧
      ((∀ fuel, Complete (printf fmt args) (atCmdExtrav printf fuel handleOooMsg fmt args)
          (awaits fuel handleOooMsg (printf fmt args) true) e) ↔
        Accepted (printf fmt args) e) :=
  ⟨cmdPuts_complete_iff, doAtCmd_complete_iff handleOooMsg false,
    doAtCmd_complete_iff handleOooMsg true⟩

end

/-! ## Long names -/

section

variable {B γ : Type}

/-- The first command of `esp_setup_wifi`. -/
def cwsap (wifi password : List UInt8) : List UInt8 :=
  format (ascii "AT+CWSAP=\"%s\",\"%s\",5,3") [.str wifi, .str password]

/-- The second command of `esp_connect_to_wifi`. -/
def cwjap (wifi password : List UInt8) : List UInt8 :=
  format (ascii "AT+CWJAP=\"%s\",\"%s\"") [.str wifi, .str password]

theorem cwsap_eq (wifi password : List UInt8) :
    cwsap wifi password =
      ascii "AT+CWSAP=\"" ++ (wifi ++ (ascii "\",\"" ++ (password ++ ascii "\",5,3"))) := rfl

theorem cwjap_eq (wifi password : List UInt8) :
    cwjap wifi password =
      ascii "AT+CWJAP=\"" ++ (wifi ++ (ascii "\",\"" ++ (password ++ ascii "\""))) := rfl

theorem length_cwsap (wifi password : List UInt8) :
    (cwsap wifi password).length = wifi.length + password.length + 18 := by
  have first : (ascii "AT+CWSAP=\"").length = 10 := rfl
  have second : (ascii "\",\"").length = 3 := rfl
  have last : (ascii "\",5,3").length = 5 := rfl
  simp only [cwsap_eq, List.length_append, first, second, last]
  omega

theorem length_cwjap (wifi password : List UInt8) :
    (cwjap wifi password).length = wifi.length + password.length + 14 := by
  have first : (ascii "AT+CWJAP=\"").length = 10 := rfl
  have second : (ascii "\",\"").length = 3 := rfl
  have last : (ascii "\"").length = 1 := rfl
  simp only [cwjap_eq, List.length_append, first, second, last]
  omega

/-- A device that takes everything gets complete commands only. -/
theorem accepted_iff_of_takes {full : List UInt8} {e : EspT B γ} (takes : e.writes = []) :
    Accepted full e ↔ full.length ≤ 511 := by
  have all : TakesAll e (full.length + 2) := by simp [TakesAll, takes]
  have some : ¬ TakesNothing e := by simp [TakesNothing, takes]
  constructor
  · rintro (rfl | nothing | ⟨short, _⟩)
    · exact Nat.zero_le 511
    · exact absurd nothing some
    · exact short
  · intro short
    exact .inr (.inr ⟨short, all⟩)

section

variable [Lexer B]

theorem atCmdvBy_format (fuel : Nat) (handleOooMsg : Prog (EspT B γ) Unit) :
    atCmdvBy format fuel handleOooMsg = atCmdv fuel handleOooMsg := by
  funext fmt args
  rw [atCmdvBy, formatted_eq]
  rfl

theorem espSetupWifi_of_long (fuel : Nat) (handleOooMsg : Prog (EspT B γ) Unit)
    (wifi : List UInt8) {password : List UInt8} {e : EspT B γ} (inactive : e.activeP = false)
    (long : 8 ≤ password.length) :
    espSetupWifi fuel handleOooMsg wifi password e =
      formatted (cwsap wifi password) (issues fun buf =>
        awaits fuel handleOooMsg buf false >>= espSetupMode fuel handleOooMsg) e := by
  have notActive : (!e.activeP) = true := by rw [inactive, Bool.not_false]
  rw [espSetupWifi, Prog.bind_of_ok (Prog.get_apply e),
    Prog.bind_of_ok (Prog.assertThat_of _ _ notActive),
    Prog.bind_of_ok (Prog.assertThat_of _ _ (decide_eq_true long)), atCmdvBy, formatted_eq,
    formatted_eq, atCmd, doAtCmd_eq, bind_assoc]
  rfl

/-- On a device that takes everything `esp_setup_wifi` sends its first command
complete if and only if name and password have at most 493 characters. -/
theorem espSetupWifi_complete_iff (handleOooMsg : Prog (EspT B γ) Unit) (wifi : List UInt8)
    {password : List UInt8} {e : EspT B γ} (inactive : e.activeP = false)
    (long : 8 ≤ password.length) (takes : e.writes = []) :
    (∀ fuel, Complete (cwsap wifi password) (espSetupWifi fuel handleOooMsg wifi password)
      (awaits fuel handleOooMsg (cwsap wifi password) false >>= espSetupMode fuel handleOooMsg)
      e) ↔ wifi.length + password.length ≤ 493 := by
  have complete := @awaiting_complete_iff B γ Bool _ (cwsap wifi password) e handleOooMsg false
    fun fuel => espSetupMode fuel handleOooMsg
  rw [accepted_iff_of_takes takes, length_cwsap] at complete
  simp only [Complete, PanicsFirst, espSetupWifi_of_long _ handleOooMsg wifi inactive long]
  exact complete.trans ⟨fun short => by omega, fun short => by omega⟩

/-- When the mode is set `esp_connect_to_wifi` sends a complete command for up
to 497 characters. -/
theorem espConnectToWifi_complete {fuel : Nat} (handleOooMsg : Prog (EspT B γ) Unit)
    {wifi password : List UInt8} {e after : EspT B γ}
    (mode : atCmd fuel handleOooMsg (ascii "AT+CWMODE=1") (ascii "OK") e = .ok true after)
    (takes : after.writes = []) (short : wifi.length + password.length ≤ 497) :
    espConnectToWifi fuel handleOooMsg wifi password e =
      atCmdExtrav format fuel handleOooMsg (ascii "AT+CWJAP=\"%s\",\"%s\"")
        [.str wifi, .str password] after ∧
      Complete (cwjap wifi password)
        (atCmdExtrav format fuel handleOooMsg (ascii "AT+CWJAP=\"%s\",\"%s\"")
          [.str wifi, .str password])
        (awaits fuel handleOooMsg (cwjap wifi password) true) after := by
  have fits : Accepted (cwjap wifi password) after := by
    rw [accepted_iff_of_takes takes, length_cwjap]
    omega
  constructor
  · rw [espConnectToWifi, Prog.bind_of_ok mode]
    rfl
  · exact (doAtCmd_complete_iff handleOooMsg true).mpr fits fuel

end

def longName : List UInt8 := List.replicate 600 97

/-- A name of 600 characters is cut off. -/
theorem at_cmdv_truncates_long_name :
    ¬ ∀ fuel, Complete (cwsap longName (ascii "password"))
      (atCmdvBy format fuel HandleOooMsg.server.run
        (ascii "AT+CWSAP=\"%s\",\"%s\",5,3") [.str longName, .str (ascii "password")])
      (awaits fuel HandleOooMsg.server.run (cwsap longName (ascii "password")) false)
      (⟨⟨LexSimple.init, []⟩, false, (), [], [], []⟩ : EspT LexSimple Unit) := by
  intro complete
  have accepted := (doAtCmd_complete_iff HandleOooMsg.server.run false).mp complete
  rw [accepted_iff_of_takes rfl, length_cwsap, longName, List.length_replicate] at accepted
  omega

end

end Cs140e.Esp
