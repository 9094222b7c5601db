import Cs140e.FakePi.RemoteExecution

/-!
# Every call is executed

From every state of a session the pi can execute all calls the program has made
so far, and the unix side gets the value it waits for.  It need not become quiet in
the other direction: what the pi prints is only read while the program waits for a
value or has called `clean_reboot`.
-/

namespace Cs140e.FakePi

open Cs140e.Library

variable {D : Type} {device : Device D} {program : Program} {memory : D} {s next : System D}

/-! ## What is left to be done -/

/-- Nothing is asked of the pi any more, and the unix side does not wait for anything that is
on its way. -/
def System.Settled (s : System D) : Prop :=
  s.toPi.items = [] ∧ (s.pi.phase = .nextOp ∨ s.pi.phase = .rebooted) ∧
    (s.unix.phase = .running ∨ s.unix.phase = .exited ∨ s.toUnix.items = [])

/-- The actions that only work off what is there. -/
def Action.drains : Action → Bool
  | .unixSends => true
  | .unixReads => true
  | .unixCanRead => true
  | .piSends => true
  | .piReads => true
  | .piWorks => true
  | .deliverToPi => true
  | .deliverToUnix => true
  | .unixCalls => false
  | .unixTimesOut => false
  | .piPrints _ => false

/-- What the pi has left to do on its own, with the way of the five bytes of a reply. -/
def PiPhase.work : PiPhase → Nat
  | .loading _ => 32
  | .replying _ => 31
  | .storing _ _ => 1
  | _ => 0

def UnixPhase.work : UnixPhase → Nat
  | .pinged => 1
  | .flushing => 1
  | _ => 0

-- A byte that the pi reads weighs more than all that it can print because of it.
def System.remaining (s : System D) : Nat :=
  500 * s.toPi.items.length + s.toPi.distance + 2 * s.toUnix.distance + s.pi.phase.work +
    s.unix.phase.work

theorem Pi.gotOp_bound (pi : Pi D) (op : UInt8) :
    6 * (pi.gotOp op).2.length + (pi.gotOp op).1.phase.work ≤ 450 := by
  have farewell : (printChars Pi.farewell).length ≤ 40 := by decide
  unfold Pi.gotOp
  split <;> simp only [PiPhase.work, List.length_nil] <;> omega

theorem Pi.read_bound {pi after : Pi D} {byte : UInt8} {written : List UInt8}
    (read : pi.read? byte = some (after, written)) :
    6 * written.length + after.phase.work ≤ 450 := by
  have greeting : (Opcode.ready.code :: printChars Pi.greeting).length ≤ 61 := by decide
  have opcode := pi.gotOp_bound byte
  unfold Pi.read? at read
  split at read
  · split at read <;> cases read <;> simp only [PiPhase.work, List.length_nil] <;> omega
  · rw [Option.some.inj read] at opcode
    exact opcode
  all_goals first
    | cases read
    | split at read <;> cases read <;> simp only [PiPhase.work, List.length_nil] <;> omega

theorem Pi.work_bound {pi after : Pi D} {written : List UInt8}
    (worked : pi.work? device = some (after, written)) :
    6 * written.length + after.phase.work < pi.phase.work := by
  unfold Pi.work? at worked
  split at worked
  · rename_i loading
    cases worked
    rw [loading]
    exact Nat.lt_succ_self 31
  · rename_i replying
    cases worked
    rw [replying, List.length_cons, LittleEndian.length_bytesOf]
    exact Nat.lt_succ_self 30
  · rename_i storing
    cases worked
    rw [storing]
    exact Nat.lt_succ_self 0
  · cases worked

theorem Unix.read_issued {unix after : Unix} {byte : UInt8}
    (read : unix.read? byte = some after) :
    after.issued = unix.issued ∧ after.phase.work ≤ 1 := by
  obtain ⟨phase, history, issued, printed, timeouts⟩ := unix
  have work (phase : UnixPhase) : phase.work ≤ 1 := by cases phase <;> simp [UnixPhase.work]
  refine ⟨?_, work _⟩
  cases phase with
  | getOp caller char =>
      cases char with
      | true => cases read; rfl
      | false =>
          dsimp only [Unix.read?] at read
          split at read
          · cases read; rfl
          · cases read
            cases caller with
            | flush => rfl
            | handshake => dsimp only [Unix.gotOp]; split <;> rfl
            | reply addr => dsimp only [Unix.gotOp]; split <;> rfl
  | getVal addr got =>
      dsimp only [Unix.read?] at read
      split at read <;> cases read <;> rfl
  | _ => cases read

theorem Unix.canRead_issued {unix after : Unix} (canRead : unix.canRead? = some after) :
    after.issued = unix.issued ∧ after.phase.work < unix.phase.work := by
  obtain ⟨phase, history, issued, printed, timeouts⟩ := unix
  cases phase with
  | pinged => cases canRead; exact ⟨rfl, Nat.lt_succ_self 0⟩
  | flushing => cases canRead; exact ⟨rfl, Nat.lt_succ_self 0⟩
  | _ => cases canRead

/-- Working off brings the end closer, makes no call and sends no second `PI_READY`. -/
theorem step_drains {action : Action} (drains : action.drains = true)
    (step : step? device program s action = some next) :
    next.remaining < s.remaining ∧ next.unix.issued = s.unix.issued ∧
      next.unix.timeouts = s.unix.timeouts := by
  cases action with
  | unixCalls | unixTimesOut | piPrints => cases drains
  | unixSends =>
      obtain ⟨toPi, moved, rfl⟩ := Option.map_eq_some_iff.mp step
      have items := congrArg List.length (Channel.items_send moved)
      have closer := Channel.distance_send moved
      refine ⟨?_, rfl, rfl⟩
      simp only [System.remaining]
      omega
  | deliverToPi =>
      obtain ⟨toPi, moved, rfl⟩ := Option.map_eq_some_iff.mp step
      have items := congrArg List.length (Channel.items_deliver moved)
      have closer := Channel.distance_deliver moved
      refine ⟨?_, rfl, rfl⟩
      simp only [System.remaining]
      omega
  | piSends =>
      obtain ⟨toUnix, moved, rfl⟩ := Option.map_eq_some_iff.mp step
      have closer := Channel.distance_send moved
      refine ⟨?_, rfl, rfl⟩
      simp only [System.remaining]
      omega
  | deliverToUnix =>
      obtain ⟨toUnix, moved, rfl⟩ := Option.map_eq_some_iff.mp step
      have closer := Channel.distance_deliver moved
      refine ⟨?_, rfl, rfl⟩
      simp only [System.remaining]
      omega
  | unixReads =>
      rw [step?] at step
      split at step
      case isFalse => cases step
      obtain ⟨⟨byte, toUnix⟩, taken, rest⟩ := Option.bind_eq_some_iff.mp step
      obtain ⟨unix, read, same⟩ := Option.bind_eq_some_iff.mp rest
      cases same
      have closer := Channel.distance_take taken
      obtain ⟨issued, work⟩ := Unix.read_issued read
      refine ⟨?_, issued, Unix.read_timeouts read⟩
      simp only [System.remaining]
      omega
  | unixCanRead =>
      rw [step?] at step
      split at step
      case isFalse => cases step
      obtain ⟨unix, canRead, rfl⟩ := Option.map_eq_some_iff.mp step
      obtain ⟨issued, work⟩ := Unix.canRead_issued canRead
      refine ⟨?_, issued, Unix.canRead_timeouts canRead⟩
      simp only [System.remaining]
      omega
  | piReads =>
      rw [step?] at step
      split at step
      case isFalse => cases step
      obtain ⟨⟨byte, toPi⟩, taken, rest⟩ := Option.bind_eq_some_iff.mp step
      obtain ⟨⟨pi, written⟩, read, same⟩ := Option.bind_eq_some_iff.mp rest
      cases same
      have items := congrArg List.length (Channel.items_take taken)
      have closer := Channel.distance_take taken
      have bound := Pi.read_bound read
      rw [List.length_cons] at items
      refine ⟨?_, rfl, rfl⟩
      simp only [System.remaining, Channel.distance_write]
      omega
  | piWorks =>
      rw [step?] at step
      split at step
      case isFalse => cases step
      obtain ⟨⟨pi, written⟩, worked, rfl⟩ := Option.map_eq_some_iff.mp step
      have bound := Pi.work_bound worked
      refine ⟨?_, rfl, rfl⟩
      simp only [System.remaining, Channel.distance_write]
      omega

/-! ## Something is left to do -/

theorem exists_unixReads (written : s.toPi.pending = []) (arrived : s.toUnix.arrived ≠ [])
    (reads : ∀ byte, (s.unix.read? byte).isSome) :
    ∃ next, step? device program s .unixReads = some next := by
  obtain ⟨byte, toUnix, taken⟩ := Channel.exists_take arrived
  obtain ⟨unix, read⟩ := Option.isSome_iff_exists.mp (reads byte)
  refine ⟨{ s with unix := unix, toUnix := toUnix }, ?_⟩
  rw [step?, if_pos written]
  exact Option.bind_eq_some_iff.mpr ⟨_, taken, Option.bind_eq_some_iff.mpr ⟨_, read, rfl⟩⟩

theorem exists_unixCanRead (written : s.toPi.pending = []) (arrived : s.toUnix.arrived ≠ [])
    (reads : s.unix.canRead?.isSome) :
    ∃ next, step? device program s .unixCanRead = some next := by
  obtain ⟨unix, read⟩ := Option.isSome_iff_exists.mp reads
  refine ⟨{ s with unix := unix }, ?_⟩
  rw [step?, if_pos ⟨written, arrived⟩, read]
  rfl

theorem exists_piReads (written : s.toUnix.pending = []) (arrived : s.toPi.arrived ≠ [])
    (reads : ∀ byte, (s.pi.read? byte).isSome) :
    ∃ next, step? device program s .piReads = some next := by
  obtain ⟨byte, toPi, taken⟩ := Channel.exists_take arrived
  obtain ⟨⟨pi, bytes⟩, read⟩ := Option.isSome_iff_exists.mp (reads byte)
  refine ⟨{ s with pi := pi, toPi := toPi, toUnix := s.toUnix.write bytes }, ?_⟩
  rw [step?, if_pos written]
  exact Option.bind_eq_some_iff.mpr ⟨_, taken, Option.bind_eq_some_iff.mpr ⟨_, read, rfl⟩⟩

/-- The pi takes a byte whenever it is waiting for one. -/
theorem Pi.read_isSome {pi : Pi D} {rest : List UInt8} {current : List Request}
    (reading : Reading pi.phase rest current) (waits : pi.phase = .nextOp ∨ rest ≠ [])
    (byte : UInt8) : (pi.read? byte).isSome := by
  unfold Pi.read?
  rcases waits with idle | unread
  · rw [idle]
    rfl
  · generalize pi.phase = phase at reading
    cases reading with
    | nextOp | replying _ | rebooted | loading _ | storing _ _ => exact absurd rfl unread
    | getAddr _ _ | putAddr _ _ | putVal _ _ =>
        dsimp only
        split <;> rfl

theorem Unix.read_isSome {unix : Unix} {caller : GetOpCaller} {char : Bool}
    (phase : unix.phase = .getOp caller char) (byte : UInt8) : (unix.read? byte).isSome := by
  unfold Unix.read?
  rw [phase]
  cases char with
  | true => rfl
  | false =>
      dsimp only
      split <;> rfl

theorem Unix.read_isSome_of_getVal {unix : Unix} {addr : UInt32} {got : List UInt8}
    (phase : unix.phase = .getVal addr got) (byte : UInt8) : (unix.read? byte).isSome := by
  unfold Unix.read?
  rw [phase]
  dsimp only
  split <;> rfl

theorem exists_piWorks (written : s.toUnix.pending = [])
    (works : (s.pi.work? device).isSome) :
    ∃ next, step? device program s .piWorks = some next := by
  obtain ⟨⟨pi, bytes⟩, worked⟩ := Option.isSome_iff_exists.mp works
  refine ⟨{ s with pi := pi, toUnix := s.toUnix.write bytes }, ?_⟩
  rw [step?, if_pos written, worked]
  rfl

/-- An action that only works off what is there is enabled. -/
def CanDrain (device : Device D) (program : Program) (s : System D) : Prop :=
  ∃ action next, Action.drains action = true ∧ step? device program s action = some next

/-- All bytes in flight have arrived. -/
structure Arrived (s : System D) : Prop where
  downPending : s.toPi.pending = []
  down : s.toPi.arrived = s.toPi.items
  upPending : s.toUnix.pending = []
  up : s.toUnix.arrived = s.toUnix.items

theorem canDrain_or_arrived (s : System D) : CanDrain device program s ∨ Arrived s := by
  rcases s.toPi.moves_or_arrived with ⟨after, moved⟩ | ⟨after, moved⟩ | ⟨downPending, down⟩
  · exact .inl ⟨.unixSends, _, rfl, Option.map_eq_some_iff.mpr ⟨after, moved, rfl⟩⟩
  · exact .inl ⟨.deliverToPi, _, rfl, Option.map_eq_some_iff.mpr ⟨after, moved, rfl⟩⟩
  · rcases s.toUnix.moves_or_arrived with ⟨after, moved⟩ | ⟨after, moved⟩ | ⟨upPending, up⟩
    · exact .inl ⟨.piSends, _, rfl, Option.map_eq_some_iff.mpr ⟨after, moved, rfl⟩⟩
    · exact .inl ⟨.deliverToUnix, _, rfl, Option.map_eq_some_iff.mpr ⟨after, moved, rfl⟩⟩
    · exact .inr ⟨downPending, down, upPending, up⟩

namespace Arrived

variable (arrived : Arrived s)
include arrived

theorem piReads (unread : s.toPi.items ≠ []) (reads : ∀ byte, (s.pi.read? byte).isSome) :
    CanDrain device program s := by
  obtain ⟨next, step⟩ := exists_piReads arrived.upPending (arrived.down ▸ unread) reads
  exact ⟨.piReads, next, rfl, step⟩

theorem piWorks (works : (s.pi.work? device).isSome) : CanDrain device program s := by
  obtain ⟨next, step⟩ := exists_piWorks arrived.upPending works
  exact ⟨.piWorks, next, rfl, step⟩

theorem unixReads (unread : s.toUnix.items ≠ []) (reads : ∀ byte, (s.unix.read? byte).isSome) :
    CanDrain device program s := by
  obtain ⟨next, step⟩ := exists_unixReads arrived.downPending (arrived.up ▸ unread) reads
  exact ⟨.unixReads, next, rfl, step⟩

theorem unixCanRead (unread : s.toUnix.items ≠ []) (reads : s.unix.canRead?.isSome) :
    CanDrain device program s := by
  obtain ⟨next, step⟩ := exists_unixCanRead arrived.downPending (arrived.up ▸ unread) reads
  exact ⟨.unixCanRead, next, rfl, step⟩

/-- The pi has rebooted: the unix side may still have something to read. -/
theorem left (down : s.toPi.items = []) (rebooted : s.pi.phase = .rebooted) {char : Bool}
    (leaving : Leaving s.unix.phase char) : s.Settled ∨ CanDrain device program s := by
  by_cases up : s.toUnix.items = []
  · exact .inl ⟨down, .inr rebooted, .inr (.inr up)⟩
  · generalize phaseEq : s.unix.phase = phase at leaving
    cases leaving with
    | getOp char => exact .inr (arrived.unixReads up (Unix.read_isSome phaseEq))
    | flushing =>
        refine .inr (arrived.unixCanRead up ?_)
        rw [Unix.canRead?, phaseEq]
        rfl
    | exited => exact .inl ⟨down, .inr rebooted, .inr (.inl phaseEq)⟩

/-- The pi waits for an opcode, and none is on its way. -/
theorem idle {current queued : List Request} {half before answer after : List UInt8}
    (session : Session device program memory s current queued half before answer after)
    (down : s.toPi.items = []) (waits : s.pi.phase = .nextOp) (none : current ++ queued = []) :
    s.Settled ∨ CanDrain device program s := by
  have answers (some : answer ≠ []) : s.toUnix.items ≠ [] := by
    intro empty
    have up := session.up
    rw [empty] at up
    obtain ⟨-, rest⟩ := List.append_eq_nil_iff.mp up.symm
    obtain ⟨-, rest⟩ := List.append_eq_nil_iff.mp rest
    exact some (List.append_eq_nil_iff.mp rest).1
  cases session.link with
  | running puts unixEq => exact .inl ⟨down, .inl waits, .inl unixEq⟩
  | asking puts addr char _ _ _ _ requestsEq =>
      rw [none] at requestsEq
      exact absurd requestsEq.symm (List.append_ne_nil_of_right_ne_nil _ (List.cons_ne_nil _ _))
  | loaded addr val char _ piEq => exact absurd (waits.symm.trans piEq) PiPhase.noConfusion
  | answered addr val char unixEq _ _ _ _ answerEq =>
      refine .inr (arrived.unixReads (answers ?_) (Unix.read_isSome unixEq))
      rw [answerEq]
      exact List.cons_ne_nil _ _
  | receiving addr val got unixEq _ _ _ _ _ _ more =>
      exact .inr (arrived.unixReads (answers more) (Unix.read_isSome_of_getVal unixEq))
  | leaving puts char _ _ _ requestsEq =>
      rw [none] at requestsEq
      exact absurd requestsEq.symm (List.append_ne_nil_of_right_ne_nil _ (List.cons_ne_nil _ _))
  | left char _ piEq => exact absurd (waits.symm.trans piEq) PiPhase.noConfusion

theorem session {current queued : List Request} {half before answer after : List UInt8}
    (session : Session device program memory s current queued half before answer after) :
    s.Settled ∨ CanDrain device program s := by
  obtain ⟨rest, reading, items⟩ := session.reading
  have unread (more : rest ≠ []) : s.Settled ∨ CanDrain device program s := by
    refine .inr (arrived.piReads ?_ (Pi.read_isSome reading (.inr more)))
    rw [items]
    exact List.append_ne_nil_of_left_ne_nil more _
  have waits := Pi.read_isSome reading
  generalize phaseEq : s.pi.phase = phase at reading waits
  cases reading with
  | nextOp =>
      by_cases down : s.toPi.items = []
      · refine arrived.idle session down phaseEq ?_
        rw [down] at items
        cases queued with
        | nil => rfl
        | cons request queued => cases items
      · exact .inr (arrived.piReads down (waits (.inl rfl)))
  | replying val | loading addr | storing addr val =>
      refine .inr (arrived.piWorks ?_)
      rw [Pi.work?, phaseEq]
      rfl
  | rebooted =>
      have noService : ¬ s.pi.phase.Serving := by
        rw [phaseEq]
        exact id
      cases session.link with
      | running _ _ serving => exact absurd serving noService
      | asking _ _ _ _ serving => exact absurd serving noService
      | loaded _ _ _ _ piEq => exact absurd (phaseEq.symm.trans piEq) PiPhase.noConfusion
      | answered _ _ _ _ piEq => exact absurd (phaseEq.symm.trans piEq) PiPhase.noConfusion
      | receiving _ _ _ _ piEq => exact absurd (phaseEq.symm.trans piEq) PiPhase.noConfusion
      | leaving _ _ _ serving => exact absurd serving noService
      | left char unixEq _ _ requestsEq =>
          have queuedNil : queued = [] := requestsEq
          rw [queuedNil] at items
          exact arrived.left items phaseEq unixEq
  | getAddr split more => exact unread more
  | putVal split more => exact unread more
  | putAddr split more => exact unread (List.append_ne_nil_of_left_ne_nil more _)

end Arrived

theorem Healthy.settled_or_canDrain (healthy : Healthy device program memory s) :
    s.Settled ∨ CanDrain device program s := by
  have moving : CanDrain device program s ∨ Arrived s := canDrain_or_arrived s
  rcases moving with drains | arrived
  · exact .inr drains
  · cases healthy with
    | pinged unixEq piEq down up =>
        refine .inr (arrived.piReads (by rw [down]; exact List.cons_ne_nil _ _) fun byte => ?_)
        rw [piEq]
        dsimp only [Pi.read?]
        split <;> rfl
    | greeted phase chars waits unixEq piEq down up =>
        have unread : s.toUnix.items ≠ [] := by rw [up]; exact List.cons_ne_nil _ _
        rcases waits with rfl | rfl
        · exact .inr (arrived.unixCanRead unread (by rw [unixEq]; rfl))
        · exact .inr (arrived.unixReads unread (Unix.read_isSome (by rw [unixEq])))
    | session current queued half before answer after holds => exact arrived.session holds

/-! ## The run -/

/-- The pi has executed all calls, and the program has the values it asked for. -/
structure Executed (s : System D) : Prop where
  opcodes : s.pi.opcodes = s.unix.issued.map Opcode.code
  performed : s.pi.performed = s.unix.history
  answered : s.unix.phase = .running ∨ ∃ char, Leaving s.unix.phase char

theorem Healthy.executed (healthy : Healthy device program memory s) (settled : s.Settled) :
    Executed s := by
  obtain ⟨down, idle, heard⟩ := settled
  cases healthy with
  | pinged unixEq piEq asked => exact absurd (down.symm.trans asked) (List.cons_ne_nil _ _).symm
  | greeted phase chars waits unixEq piEq _ up =>
      rw [unixEq, up] at heard
      rcases waits with rfl | rfl <;> simp at heard
  | session current queued half before answer after holds =>
      obtain ⟨rfl, rfl⟩ := holds.nothing_asked down idle
      have unanswered (none : s.toUnix.items = []) : answer = [] := by
        have bytes := holds.up
        rw [none] at bytes
        simp only [List.nil_eq, List.append_eq_nil_iff] at bytes
        exact bytes.2.2.1
      obtain ⟨performed, answered⟩ :=
        holds.link.settled idle (heard.imp_right (Or.imp_right unanswered))
      refine ⟨?_, performed, answered⟩
      rw [holds.opcodes]
      exact (List.append_nil _).symm

/-- From every state of a session with a single `PI_READY` some further run, without a further
call of the program, has executed all its calls. -/
theorem every_call_is_executed {actions : List Action}
    (ran : run? device program memory actions = some s) (single : s.unix.timeouts = 0) :
    ∃ (more : List Action) (last : System D),
      run? device program memory (actions ++ more) = some last ∧
        last.unix.issued = s.unix.issued ∧ last.Settled ∧ Executed last := by
  let inv (state : System D) := Healthy device program memory state ∧
    state.unix.timeouts = 0 ∧ state.unix.issued = s.unix.issued
  have progress (state : System D) (kept : inv state) (busy : ¬ state.Settled) :
      ∃ action after, step? device program state action = some after ∧ inv after ∧
        after.remaining < state.remaining := by
    obtain ⟨healthy, single, issued⟩ := kept
    obtain ⟨action, after, drains, step⟩ := healthy.settled_or_canDrain.resolve_left busy
    obtain ⟨closer, sameIssued, sameTimeouts⟩ := step_drains drains step
    have still := sameTimeouts.trans single
    exact ⟨action, after, step,
      ⟨healthy.step (step_effect step) still, still, sameIssued.trans issued⟩, closer⟩
  obtain ⟨more, last, runs, ⟨kept, -, issued⟩, settled⟩ :=
    exists_run_of_measure inv System.Settled System.remaining progress s
      ⟨healthy_of_run ran single, single, rfl⟩
  refine ⟨more, last, ?_, issued, settled, kept.executed settled⟩
  rw [run?, List.foldlM_append]
  exact Option.bind_eq_some_iff.mpr ⟨s, ran, runs⟩

end Cs140e.FakePi
