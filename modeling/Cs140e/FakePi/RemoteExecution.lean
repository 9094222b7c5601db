import Cs140e.FakePi.UnixSteps

/-!
# Remote execution is local execution

After a handshake with a single `PI_READY`, the pi performs the accesses of the
program as a local run would, and the program sees the values of that run.
-/

namespace Cs140e.FakePi

open Cs140e.Library

variable {D : Type} {device : Device D} {program : Program} {memory : D} {s next : System D}

/-! ## The handshake -/

/-- The pi reads the `PI_READY` and greets. -/
theorem booted_reads {pi after : Pi D} {written : List UInt8} (booted : pi.phase = .booted)
    (read : pi.read? Opcode.ready.code = some (after, written)) :
    after = { pi.print Pi.greeting with phase := .nextOp } ∧
      written = Opcode.ready.code :: printChars Pi.greeting := by
  rw [Pi.read?, booted] at read
  obtain ⟨rfl, rfl⟩ := Prod.mk.inj (Option.some.inj read)
  exact ⟨rfl, rfl⟩

/-- Before the pi has read anything. -/
theorem pinged_step (unixEq : s.unix = ⟨.pinged, [], [], [], 0⟩)
    (piEq : s.pi = ⟨.booted, memory, [], [], []⟩) (down : s.toPi.items = [Opcode.ready.code])
    (up : s.toUnix.items = []) (effect : Effect device program s next)
    (single : next.unix.timeouts = 0) : Healthy device program memory next := by
  cases effect with
  | moves unixSame piSame downSame upSame =>
      exact .pinged (unixSame.trans unixEq) (piSame.trans piEq) (downSame.trans down)
        (upSame.trans up)
  | unixReads byte read =>
      rw [unixEq] at read
      cases read
  | unixCalls running =>
      rw [unixEq] at running
      cases running
  | unixCanRead canRead piSame nonempty => exact absurd up nonempty
  | unixTimesOut written timesOut =>
      rw [unixEq] at timesOut
      obtain ⟨timed, _⟩ := Prod.mk.inj (Option.some.inj timesOut)
      rw [← timed] at single
      cases single
  | piReads byte written read unixSame downBytes upBytes =>
      rw [down] at downBytes
      obtain ⟨rfl, none⟩ := List.cons.inj downBytes
      have booted : s.pi.phase = .booted := by rw [piEq]
      obtain ⟨greeted, rfl⟩ := booted_reads booted read
      rw [piEq] at greeted
      rw [up] at upBytes
      exact .greeted .pinged Pi.greeting (.inl rfl) (unixSame.trans unixEq) greeted none.symm
        upBytes
  | piWorks written worked =>
      rw [piEq] at worked
      cases worked
  | piPrints c alive =>
      rw [piEq] at alive
      cases alive

/-- From the greeting of the pi until the unix side has read its `PI_READY`. -/
theorem greeted_step {phase : UnixPhase} {chars : List UInt8}
    (waits : phase = .pinged ∨ phase = .getOp .handshake false)
    (unixEq : s.unix = ⟨phase, [], [], [], 0⟩) (piEq : s.pi = ⟨.nextOp, memory, [], [], chars⟩)
    (down : s.toPi.items = []) (up : s.toUnix.items = Opcode.ready.code :: printChars chars)
    (effect : Effect device program s next) (single : next.unix.timeouts = 0) :
    Healthy device program memory next := by
  cases effect with
  | moves unixSame piSame downSame upSame =>
      exact .greeted phase chars waits (unixSame.trans unixEq) (piSame.trans piEq)
        (downSame.trans down) (upSame.trans up)
  | unixReads byte read piSame downSame upBytes =>
      rw [unixEq] at read
      rcases waits with rfl | rfl
      · cases read
      · rw [up] at upBytes
        obtain ⟨rfl, rest⟩ := List.cons.inj upBytes
        have unixRuns : next.unix = ⟨.running, [], [], [], 0⟩ := (Option.some.inj read).symm
        rw [piEq] at piSame
        rw [down] at downSame
        refine .session [] [] [] chars [] [] ?_
        exact {
          reading := ⟨[], by rw [piSame]; exact .nextOp, downSame⟩
          opcodes := by rw [unixRuns, piSame]; rfl
          up := by rw [← rest]; simp only [printChars_nil, List.append_nil, List.nil_append]
          printed := by rw [unixRuns, piSame]; simp only [List.append_nil, List.nil_append]
          performed := by rw [piSame]; exact .start
          asked := by rw [unixRuns]; exact ⟨memory, .start⟩
          link := by
            rw [unixRuns, piSame]
            exact .running [] rfl trivial rfl rfl rfl rfl rfl }
  | unixCalls running =>
      rw [unixEq] at running
      rcases waits with rfl | rfl <;> cases running
  | unixCanRead canRead piSame nonempty downSame upSame =>
      rw [unixEq] at canRead
      rcases waits with rfl | rfl
      · exact .greeted _ chars (.inr rfl) (Option.some.inj canRead).symm (piSame.trans piEq)
          (downSame.trans down) (upSame.trans up)
      · cases canRead
  | unixTimesOut written timesOut =>
      rw [unixEq] at timesOut
      rcases waits with rfl | rfl
      · obtain ⟨timed, _⟩ := Prod.mk.inj (Option.some.inj timesOut)
        rw [← timed] at single
        cases single
      · cases timesOut
  | piReads byte written read unixSame downBytes =>
      rw [down] at downBytes
      cases downBytes
  | piWorks written worked =>
      rw [piEq] at worked
      cases worked
  | piPrints c alive piPrinted unixSame downSame upBytes =>
      rw [piEq] at piPrinted
      rw [up] at upBytes
      refine .greeted phase (chars ++ [c]) waits (unixSame.trans unixEq) piPrinted
        (downSame.trans down) ?_
      rw [upBytes, printChars_append]
      rfl

/-! ## The run -/

theorem session_step {current queued : List Request} {half before answer after : List UInt8}
    (session : Session device program memory s current queued half before answer after)
    (effect : Effect device program s next) : Healthy device program memory next := by
  cases effect with
  | moves unixEq piEq down up => exact .session _ _ _ _ _ _ (session.moves unixEq piEq down up)
  | unixReads byte read piEq down up =>
      obtain ⟨_, _, _, _, kept⟩ := session.unix_reads read piEq down up
      exact .session _ _ _ _ _ _ kept
  | unixCalls running unixEq piEq down up =>
      exact .session _ _ _ _ _ _ (session.unix_calls running unixEq piEq down up)
  | unixCanRead canRead piEq nonempty down up =>
      cases phaseEq : s.unix.phase with
      | flushing =>
          rw [Unix.canRead?, phaseEq] at canRead
          exact .session _ _ _ _ _ _ (session.unix_flushes phaseEq (.getOp false)
            (Option.some.inj canRead).symm piEq down up)
      | pinged => exact absurd phaseEq session.link.not_pinged
      | _ =>
          rw [Unix.canRead?, phaseEq] at canRead
          cases canRead
  | unixTimesOut written timesOut piEq down up =>
      cases phaseEq : s.unix.phase with
      | flushing =>
          rw [Unix.timesOut?, phaseEq] at timesOut
          obtain ⟨unixEq, rfl⟩ := Prod.mk.inj (Option.some.inj timesOut)
          rw [List.append_nil] at down
          exact .session _ _ _ _ _ _ (session.unix_flushes phaseEq .exited unixEq.symm piEq down
            up)
      | pinged => exact absurd phaseEq session.link.not_pinged
      | _ =>
          rw [Unix.timesOut?, phaseEq] at timesOut
          cases timesOut
  | piReads byte written read unixEq down up =>
      obtain ⟨_, _, _, kept⟩ := session.pi_reads read unixEq down up
      exact .session _ _ _ _ _ _ kept
  | piWorks written worked unixEq down up =>
      obtain ⟨_, _, _, kept⟩ := session.pi_works worked unixEq down up
      exact .session _ _ _ _ _ _ kept
  | piPrints c alive piEq unixEq down up =>
      obtain ⟨_, _, kept⟩ := session.pi_prints piEq unixEq down up
      exact .session _ _ _ _ _ _ kept

theorem Healthy.step (healthy : Healthy device program memory s)
    (effect : Effect device program s next) (single : next.unix.timeouts = 0) :
    Healthy device program memory next := by
  cases healthy with
  | pinged unixEq piEq down up => exact pinged_step unixEq piEq down up effect single
  | greeted phase chars waits unixEq piEq down up =>
      exact greeted_step waits unixEq piEq down up effect single
  | session current queued half before answer after holds => exact session_step holds effect

theorem Unix.gotOp_timeouts (unix : Unix) (caller : GetOpCaller) (op : UInt8) :
    (unix.gotOp caller op).timeouts = unix.timeouts := by
  cases caller with
  | handshake => dsimp only [Unix.gotOp]; split <;> rfl
  | reply addr => dsimp only [Unix.gotOp]; split <;> rfl
  | flush => rfl

theorem Unix.read_timeouts {unix after : Unix} {byte : UInt8}
    (read : unix.read? byte = some after) : after.timeouts = unix.timeouts := by
  obtain ⟨phase, history, issued, printed, timeouts⟩ := unix
  cases phase with
  | getOp caller char =>
      cases char with
      | true => cases read; rfl
      | false =>
          dsimp only [Unix.read?] at read
          split at read
          · cases read; rfl
          · rw [← Option.some.inj read, Unix.gotOp_timeouts]
  | getVal addr got =>
      dsimp only [Unix.read?] at read
      split at read <;> cases read <;> rfl
  | _ => cases read

theorem Unix.call_timeouts (unix : Unix) (request : Request) :
    (unix.call request).timeouts = unix.timeouts := by
  cases request <;> rfl

theorem Unix.canRead_timeouts {unix after : Unix} (canRead : unix.canRead? = some after) :
    after.timeouts = unix.timeouts := by
  obtain ⟨phase, history, issued, printed, timeouts⟩ := unix
  cases phase with
  | pinged => cases canRead; rfl
  | flushing => cases canRead; rfl
  | _ => cases canRead

theorem Unix.timesOut_timeouts {unix after : Unix} {written : List UInt8}
    (timesOut : unix.timesOut? = some (after, written)) :
    unix.timeouts ≤ after.timeouts := by
  obtain ⟨phase, history, issued, printed, timeouts⟩ := unix
  cases phase with
  | pinged => cases timesOut; exact Nat.le_succ _
  | flushing => cases timesOut; exact Nat.le_refl _
  | _ => cases timesOut

/-- Timeouts are only counted up. -/
theorem timeouts_le_of_effect (effect : Effect device program s next) :
    s.unix.timeouts ≤ next.unix.timeouts := by
  cases effect with
  | moves unixEq => rw [unixEq]
  | unixReads byte read => rw [Unix.read_timeouts read]
  | unixCalls running unixEq => rw [unixEq, Unix.call_timeouts]
  | unixCanRead canRead => rw [Unix.canRead_timeouts canRead]
  | unixTimesOut written timesOut => exact Unix.timesOut_timeouts timesOut
  | piReads byte written read unixEq => rw [unixEq]
  | piWorks written worked unixEq => rw [unixEq]
  | piPrints c alive piEq unixEq => rw [unixEq]

theorem healthy_of_run {actions : List Action} (ran : run? device program memory actions = some s)
    (single : s.unix.timeouts = 0) : Healthy device program memory s := by
  refine foldlM_keeps (fun s => s.unix.timeouts = 0 → Healthy device program memory s) ?_
    actions (System.start memory) s (fun _ => .pinged rfl rfl rfl rfl) ran single
  intro s action next healthy step single
  have effect := step_effect step
  have before := timeouts_le_of_effect effect
  exact (healthy (by omega)).step effect single

/-! ## What the invariant says -/

/-- The pi has performed a part of what the program has asked for, or one load
more, whose value the program is still waiting for. -/
inductive Keeps (program : Program) (history performed : List Access) : Prop where
  | behind (part : performed <+: history)
  | ahead (addr val : UInt32) (more : performed = history ++ [.load addr val])
      (waits : program history = .get32 addr)

/-- No message is on its way and the pi is not executing one. -/
def System.Quiet (s : System D) : Prop :=
  s.toPi.items = [] ∧ s.toUnix.items = [] ∧ (s.pi.phase = .nextOp ∨ s.pi.phase = .rebooted)

theorem Link.keeps {unix : UnixPhase} {pi : PiPhase} {history performed : List Access}
    {requests : List Request} {half before answer after : List UInt8} {state : D}
    (link : Link program unix pi history performed requests half before answer after)
    (run : LocalRun device program memory performed state) :
    Keeps program history performed := by
  have ahead : ∀ addr val, performed = history ++ [.load addr val] →
      Keeps program history performed := fun addr val more =>
    .ahead addr val more (run.program_at more)
  cases link with
  | running puts _ _ historyEq => exact .behind ⟨_, historyEq.symm⟩
  | asking puts addr char _ _ _ historyEq => exact .behind ⟨_, historyEq.symm⟩
  | loaded addr val char _ _ more => exact ahead addr val more
  | answered addr val char _ _ more => exact ahead addr val more
  | receiving addr val got _ _ more => exact ahead addr val more
  | leaving puts char _ _ historyEq => exact .behind ⟨_, historyEq.symm⟩
  | left char _ _ historyEq => exact .behind ⟨[], by rw [historyEq, List.append_nil]⟩

theorem Link.unix_alive {unix : UnixPhase} {pi : PiPhase} {history performed : List Access}
    {requests : List Request} {half before answer after : List UInt8}
    (link : Link program unix pi history performed requests half before answer after)
    (message : String) : unix ≠ .panicked message := by
  rintro rfl
  cases link with
  | running puts unixEq => cases unixEq
  | asking puts addr _ unixEq => cases unixEq
  | loaded addr val _ unixEq => cases unixEq
  | answered addr val _ unixEq => cases unixEq
  | receiving addr val got unixEq => cases unixEq
  | leaving puts _ unixEq => cases unixEq
  | left _ unixEq => cases unixEq

/-- When the pi waits for an opcode and none is on its way, it has taken all requests. -/
theorem Session.nothing_asked {current queued : List Request}
    {half before answer after : List UInt8}
    (session : Session device program memory s current queued half before answer after)
    (down : s.toPi.items = []) (idle : s.pi.phase = .nextOp ∨ s.pi.phase = .rebooted) :
    current = [] ∧ queued = [] := by
  obtain ⟨rest, reading, items⟩ := session.reading
  rw [down] at items
  obtain ⟨rfl, noneQueued⟩ := List.append_eq_nil_iff.mp items.symm
  constructor
  · rcases idle with phase | phase <;> rw [phase] at reading <;> cases reading <;> rfl
  · cases queued with
    | nil => rfl
    | cons request queued => cases noneQueued

/-- With no request and no answer in flight both sides have seen the same accesses, and the
program does not wait for a value. -/
theorem Link.settled {unix : UnixPhase} {pi : PiPhase} {history performed : List Access}
    {half before answer after : List UInt8}
    (link : Link program unix pi history performed [] half before answer after)
    (idle : pi = .nextOp ∨ pi = .rebooted)
    (heard : unix = .running ∨ unix = .exited ∨ answer = []) :
    performed = history ∧ (unix = .running ∨ ∃ char, Leaving unix char) := by
  cases link with
  | running puts unixEq _ historyEq requestsEq =>
      refine ⟨?_, .inl unixEq⟩
      cases puts with
      | nil => rw [historyEq]; exact (List.append_nil _).symm
      | cons put puts => cases requestsEq
  | asking puts addr char _ _ _ _ requestsEq =>
      exact absurd requestsEq.symm (List.append_ne_nil_of_right_ne_nil _ (List.cons_ne_nil _ _))
  | loaded addr val char _ piEq =>
      rcases idle with phase | phase <;> rw [phase] at piEq <;> cases piEq
  | answered addr val char unixEq _ _ _ _ answerEq =>
      rw [unixEq, answerEq] at heard
      simp at heard
  | receiving addr val got unixEq _ _ _ _ _ _ more =>
      rw [unixEq] at heard
      simp [more] at heard
  | leaving puts char _ _ _ requestsEq =>
      exact absurd requestsEq.symm (List.append_ne_nil_of_right_ne_nil _ (List.cons_ne_nil _ _))
  | left char unixEq _ historyEq => exact ⟨historyEq.symm, .inr ⟨char, unixEq⟩⟩

/-- With nothing in flight both sides have seen the same accesses. -/
theorem Session.quiet {current queued : List Request} {half before answer after : List UInt8}
    (session : Session device program memory s current queued half before answer after)
    (quiet : s.Quiet) :
    s.pi.performed = s.unix.history ∧ s.unix.printed = s.pi.printed := by
  obtain ⟨down, up, idle⟩ := quiet
  obtain ⟨rfl, rfl⟩ := session.nothing_asked down idle
  have bytes := session.up
  rw [up] at bytes
  obtain ⟨rfl, rest⟩ := List.append_eq_nil_iff.mp bytes.symm
  obtain ⟨noneBefore, bytes⟩ := List.append_eq_nil_iff.mp rest
  obtain ⟨rfl, noneAfter⟩ := List.append_eq_nil_iff.mp bytes
  have printsNil : ∀ chars, printChars chars = [] → chars = [] := by
    intro chars none
    cases chars with
    | nil => rfl
    | cons c rest => cases none
  have printed := session.printed
  rw [printsNil before noneBefore, printsNil after noneAfter] at printed
  simp only [List.append_nil] at printed
  exact ⟨(session.link.settled idle (.inr (.inr rfl))).1, printed⟩

theorem Reading.pi_alive {phase : PiPhase} {rest : List UInt8} {current : List Request}
    (reading : Reading phase rest current) (message : String) : phase ≠ .panicked message := by
  rintro rfl
  cases reading

/-- Once the reply is recognised, only prints behind it are still to come. -/
theorem Session.caughtUp {current queued : List Request} {half before answer after : List UInt8}
    (session : Session device program memory s current queued half before answer after)
    {addr : UInt32} {got : List UInt8} (phaseEq : s.unix.phase = .getVal addr got) :
    ∃ word behind, s.toUnix.items = word ++ printChars behind ∧
      got.length + word.length = 4 ∧ s.unix.printed ++ behind = s.pi.printed := by
  have link := session.link
  rw [phaseEq] at link
  obtain ⟨val, _, _, _, rfl, rfl, split, _⟩ := link.of_getVal
  refine ⟨answer, after, session.up, ?_, session.printed⟩
  rw [← List.length_append, split, LittleEndian.length_bytesOf]

/-- What the two sides have done is a run on the pi alone: the pi has performed
the accesses of the program in order, the program has seen the values of these
accesses, and the prints of the pi arrive in order and disturb nothing. -/
structure RunsLocally (device : Device D) (program : Program) (memory : D) (s : System D) :
    Prop where
  performed : LocalRun device program memory s.pi.performed s.pi.device
  seen : ∃ state, LocalRun device program memory s.unix.history state
  keeps : Keeps program s.unix.history s.pi.performed
  printed : s.unix.printed <+: s.pi.printed
  caughtUp : ∀ addr got, s.unix.phase = .getVal addr got →
    ∃ word behind, s.toUnix.items = word ++ printChars behind ∧
      got.length + word.length = 4 ∧ s.unix.printed ++ behind = s.pi.printed
  unixAlive : ∀ message, s.unix.phase ≠ .panicked message
  piAlive : ∀ message, s.pi.phase ≠ .panicked message
  quiet : s.Quiet → s.pi.performed = s.unix.history ∧ s.unix.printed = s.pi.printed

theorem Healthy.runsLocally (healthy : Healthy device program memory s) :
    RunsLocally device program memory s := by
  cases healthy with
  | pinged unixEq piEq down up =>
      exact {
        performed := by rw [piEq]; exact .start
        seen := ⟨memory, by rw [unixEq]; exact .start⟩
        keeps := by rw [unixEq, piEq]; exact .behind (List.prefix_refl _)
        printed := by rw [unixEq]; exact List.nil_prefix
        caughtUp := by rw [unixEq]; exact fun _ _ same => by cases same
        unixAlive := by rw [unixEq]; exact fun _ same => by cases same
        piAlive := by rw [piEq]; exact fun _ same => by cases same
        quiet := fun quiet => by rw [quiet.1] at down; cases down }
  | greeted phase chars waits unixEq piEq down up =>
      exact {
        performed := by rw [piEq]; exact .start
        seen := ⟨memory, by rw [unixEq]; exact .start⟩
        keeps := by rw [unixEq, piEq]; exact .behind (List.prefix_refl _)
        printed := by rw [unixEq]; exact List.nil_prefix
        caughtUp := by
          rw [unixEq]
          rcases waits with rfl | rfl <;> exact fun _ _ same => by cases same
        unixAlive := by
          rw [unixEq]
          rcases waits with rfl | rfl <;> exact fun _ same => by cases same
        piAlive := by rw [piEq]; exact fun _ same => by cases same
        quiet := fun quiet => by rw [quiet.2.1] at up; cases up }
  | session current queued half before answer after holds =>
      obtain ⟨rest, reading, _⟩ := holds.reading
      exact {
        performed := holds.performed
        seen := holds.asked
        keeps := holds.link.keeps holds.performed
        printed := ⟨_, holds.printed⟩
        caughtUp := fun addr got phaseEq => holds.caughtUp phaseEq
        unixAlive := holds.link.unix_alive
        piAlive := reading.pi_alive
        quiet := holds.quiet }

/-- Whatever the program, the memory and the interleaving: a session begun with
a single `PI_READY` executes the program as the pi alone would. -/
theorem remote_execution_is_local {actions : List Action}
    (ran : run? device program memory actions = some s) (single : s.unix.timeouts = 0) :
    RunsLocally device program memory s :=
  (healthy_of_run ran single).runsLocally

/-- Each action as often in a row as the number says. -/
def schedule (rounds : List (Nat × Action)) : List Action :=
  rounds.flatMap fun round => List.replicate round.1 round.2

/-- One word of memory. -/
def wordDevice : Device UInt32 where
  load := fun _ word => (word, word)
  store := fun _ val _ => val

/-- Stores 7 and reads it back. -/
def storeAndLoad : Program
  | [] => .put32 16 7
  | [_] => .get32 16
  | _ => .reboot

/-- The handshake, the put and the get of `storeAndLoad`; the unix side reads
the greeting while it waits for the reply. -/
def storeAndLoadActions : List Action :=
  schedule [(1, .unixSends), (1, .deliverToPi), (1, .piReads), (61, .piSends),
    (61, .deliverToUnix), (1, .unixCanRead), (1, .unixReads), (1, .unixCalls), (9, .unixSends),
    (1, .unixCalls), (5, .unixSends), (14, .deliverToPi), (9, .piReads), (1, .piWorks),
    (5, .piReads), (2, .piWorks), (5, .piSends), (5, .deliverToUnix), (65, .unixReads)]

theorem storeAndLoad_reads_back :
    (run? wordDevice storeAndLoad 0 storeAndLoadActions).map
      (fun s => (s.unix.history, s.unix.timeouts)) = some ([.store 16 7, .load 16 7], 0) := by
  decide +kernel

theorem remote_execution_of_storeAndLoad :
    ∃ s, run? wordDevice storeAndLoad 0 storeAndLoadActions = some s ∧
      s.unix.history = [.store 16 7, .load 16 7] ∧ RunsLocally wordDevice storeAndLoad 0 s := by
  obtain ⟨s, ran, same⟩ := Option.map_eq_some_iff.mp storeAndLoad_reads_back
  obtain ⟨history, single⟩ := Prod.mk.inj same
  exact ⟨s, ran, history, remote_execution_is_local ran single⟩

end Cs140e.FakePi
