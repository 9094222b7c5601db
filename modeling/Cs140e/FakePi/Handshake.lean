import Cs140e.FakePi.RemoteExecution

/-!
# The handshake of the fake pi

The pi reads one `PI_READY` before its loop.  Every further one the unix side
has sent while it waited is the first byte its loop reads.
-/

namespace Cs140e.FakePi

open Cs140e.Library

variable {D : Type} {device : Device D} {program : Program} {memory : D} {s next : System D}

/-- The loop of the pi has received only the opcodes of calls of the program,
in order, and has not panicked over one. -/
def System.OnlyCalls (s : System D) : Prop :=
  s.pi.opcodes <+: s.unix.issued.map Opcode.code ∧ s.pi.phase ≠ .panicked Pi.unexpectedOp

/-- A second `PI_READY` is on its way to the loop of the pi, or has reached it. -/
inductive Doomed (s : System D) : Prop where
  | booted (phase : s.pi.phase = .booted) (none : s.pi.opcodes = []) (rest : List UInt8)
      (down : s.toPi.items = Opcode.ready.code :: Opcode.ready.code :: rest)
  | looping (phase : s.pi.phase = .nextOp) (none : s.pi.opcodes = []) (rest : List UInt8)
      (down : s.toPi.items = Opcode.ready.code :: rest)
  | panicked (phase : s.pi.phase = .panicked Pi.unexpectedOp)
      (first : s.pi.opcodes = [Opcode.ready.code])

namespace Doomed

/-- Whatever the unix side writes comes after the second `PI_READY`. -/
theorem unix_writes (doomed : Doomed s) (written : List UInt8) (piEq : next.pi = s.pi)
    (down : next.toPi.items = s.toPi.items ++ written) : Doomed next := by
  cases doomed with
  | booted phase none rest items =>
      exact .booted (by rw [piEq]; exact phase) (by rw [piEq]; exact none) (rest ++ written)
        (by rw [down, items]; rfl)
  | looping phase none rest items =>
      exact .looping (by rw [piEq]; exact phase) (by rw [piEq]; exact none) (rest ++ written)
        (by rw [down, items]; rfl)
  | panicked phase first =>
      exact .panicked (by rw [piEq]; exact phase) (by rw [piEq]; exact first)

theorem unchanged (doomed : Doomed s) (piEq : next.pi = s.pi)
    (down : next.toPi.items = s.toPi.items) : Doomed next :=
  doomed.unix_writes [] piEq (by rw [down, List.append_nil])

theorem pi_reads (doomed : Doomed s) {byte : UInt8} {written : List UInt8}
    (read : s.pi.read? byte = some (next.pi, written))
    (down : s.toPi.items = byte :: next.toPi.items) : Doomed next := by
  cases doomed with
  | booted phase none rest items =>
      rw [items] at down
      obtain ⟨rfl, downAfter⟩ := List.cons.inj down
      obtain ⟨piEq, _⟩ := booted_reads phase read
      exact .looping (by rw [piEq]) (by rw [piEq]; exact none) rest downAfter.symm
  | looping phase none rest items =>
      rw [items] at down
      obtain ⟨rfl, _⟩ := List.cons.inj down
      rw [Pi.read?, phase] at read
      obtain ⟨piEq, _⟩ := Prod.mk.inj (Option.some.inj read)
      refine .panicked (by rw [← piEq]) ?_
      rw [← piEq]
      exact congrArg (· ++ [Opcode.ready.code]) none
  | panicked phase first =>
      rw [Pi.read?, phase] at read
      cases read

theorem step (doomed : Doomed s) (effect : Effect device program s next) : Doomed next := by
  cases effect with
  | moves unixEq piEq down => exact doomed.unchanged piEq down
  | unixReads byte read piEq down => exact doomed.unchanged piEq down
  | unixCalls running unixEq piEq down => exact doomed.unix_writes _ piEq down
  | unixCanRead canRead piEq nonempty down => exact doomed.unchanged piEq down
  | unixTimesOut written timesOut piEq down => exact doomed.unix_writes _ piEq down
  | piReads byte written read unixEq down => exact doomed.pi_reads read down
  | piWorks written worked =>
      cases doomed with
      | booted phase => rw [Pi.work?, phase] at worked; cases worked
      | looping phase => rw [Pi.work?, phase] at worked; cases worked
      | panicked phase => rw [Pi.work?, phase] at worked; cases worked
  | piPrints c alive piEq unixEq down =>
      cases doomed with
      | booted phase => rw [Pi.canPrint, phase] at alive; cases alive
      | looping phase none rest items =>
          exact .looping (by rw [piEq]; exact phase) (by rw [piEq]; exact none) rest
            (by rw [down]; exact items)
      | panicked phase => rw [Pi.canPrint, phase] at alive; cases alive

/-- The loop of the pi is safe only until it reads its first byte. -/
theorem onlyCalls_iff (doomed : Doomed s) : s.OnlyCalls ↔ s.pi.opcodes = [] := by
  cases doomed with
  | booted phase none rest down =>
      refine ⟨fun _ => none, fun _ => ⟨by rw [none]; exact List.nil_prefix, ?_⟩⟩
      rw [phase]
      exact fun same => by cases same
  | looping phase none rest down =>
      refine ⟨fun _ => none, fun _ => ⟨by rw [none]; exact List.nil_prefix, ?_⟩⟩
      rw [phase]
      exact fun same => by cases same
  | panicked phase first =>
      exact ⟨fun safe => absurd phase safe.2, fun none => by rw [none] at first; cases first⟩

end Doomed

/-! ## Runs with a single `PI_READY` -/

theorem Healthy.onlyCalls (healthy : Healthy device program memory s) : s.OnlyCalls := by
  cases healthy with
  | pinged unixEq piEq =>
      exact ⟨by rw [piEq]; exact List.nil_prefix, by rw [piEq]; exact fun same => by cases same⟩
  | greeted phase chars waits unixEq piEq =>
      exact ⟨by rw [piEq]; exact List.nil_prefix, by rw [piEq]; exact fun same => by cases same⟩
  | session current queued half before answer after holds =>
      obtain ⟨rest, reading, _⟩ := holds.reading
      exact ⟨⟨_, holds.opcodes.symm⟩, reading.pi_alive _⟩

/-- The first timeout of a run sends the second `PI_READY`. -/
theorem Healthy.times_out (healthy : Healthy device program memory s)
    (single : s.unix.timeouts = 0) {written : List UInt8}
    (timesOut : s.unix.timesOut? = some (next.unix, written)) (piEq : next.pi = s.pi)
    (down : next.toPi.items = s.toPi.items ++ written) (counted : next.unix.timeouts ≠ 0) :
    Doomed next := by
  cases healthy with
  | pinged unixEq piStart items =>
      rw [unixEq] at timesOut
      obtain ⟨_, rfl⟩ := Prod.mk.inj (Option.some.inj timesOut)
      rw [items] at down
      exact .booted (by rw [piEq, piStart]) (by rw [piEq, piStart]) [] down
  | greeted phase chars waits unixEq piStart items =>
      rw [unixEq] at timesOut
      rcases waits with rfl | rfl
      · obtain ⟨_, rfl⟩ := Prod.mk.inj (Option.some.inj timesOut)
        rw [items] at down
        exact .looping (by rw [piEq, piStart]) (by rw [piEq, piStart]) [] down
      · cases timesOut
  | session current queued half before answer after holds =>
      cases phaseEq : s.unix.phase with
      | pinged => exact absurd phaseEq holds.link.not_pinged
      | flushing =>
          rw [Unix.timesOut?, phaseEq] at timesOut
          obtain ⟨unixEq, _⟩ := Prod.mk.inj (Option.some.inj timesOut)
          rw [← unixEq] at counted
          exact absurd single counted
      | _ =>
          rw [Unix.timesOut?, phaseEq] at timesOut
          cases timesOut

/-- Only an answer no of `can_read_timeout` counts as a timeout. -/
theorem timeouts_eq_or_timesOut (effect : Effect device program s next) :
    next.unix.timeouts = s.unix.timeouts ∨
      ∃ written, s.unix.timesOut? = some (next.unix, written) ∧ next.pi = s.pi ∧
        next.toPi.items = s.toPi.items ++ written := by
  cases effect with
  | moves unixEq => exact .inl (by rw [unixEq])
  | unixReads byte read => exact .inl (Unix.read_timeouts read)
  | unixCalls running unixEq => exact .inl (by rw [unixEq, Unix.call_timeouts])
  | unixCanRead canRead => exact .inl (Unix.canRead_timeouts canRead)
  | unixTimesOut written timesOut piEq down => exact .inr ⟨written, timesOut, piEq, down⟩
  | piReads byte written read unixEq => exact .inl (by rw [unixEq])
  | piWorks written worked unixEq => exact .inl (by rw [unixEq])
  | piPrints c alive piEq unixEq => exact .inl (by rw [unixEq])

/-- The invariant of all runs. -/
inductive Handshake (device : Device D) (program : Program) (memory : D) (s : System D) :
    Prop where
  | single (noTimeout : s.unix.timeouts = 0) (healthy : Healthy device program memory s)
  | several (timeout : s.unix.timeouts ≠ 0) (doomed : Doomed s)

theorem Handshake.step (handshake : Handshake device program memory s)
    (effect : Effect device program s next) : Handshake device program memory next := by
  have counted := timeouts_le_of_effect effect
  cases handshake with
  | several timeout doomed => exact .several (by omega) (doomed.step effect)
  | single noTimeout healthy =>
      by_cases still : next.unix.timeouts = 0
      · exact .single still (healthy.step effect still)
      · rcases timeouts_eq_or_timesOut effect with same | ⟨written, timesOut, piEq, down⟩
        · exact absurd (same.trans noTimeout) still
        · exact .several still (healthy.times_out noTimeout timesOut piEq down still)

theorem handshake_of_run {actions : List Action}
    (ran : run? device program memory actions = some s) : Handshake device program memory s :=
  foldlM_keeps _ (fun _ _ _ kept step => kept.step (step_effect step)) actions
    (System.start memory) s (.single rfl (.pinged rfl rfl rfl rfl)) ran

/-- The loop of the pi receives only opcodes of calls as long as no timeout has
made `main` send a second `PI_READY`; after a timeout the first byte the loop
receives is not one. -/
theorem handshake_safe_iff {actions : List Action}
    (ran : run? device program memory actions = some s) :
    s.OnlyCalls ↔ s.unix.timeouts = 0 ∨ s.pi.opcodes = [] := by
  cases handshake_of_run ran with
  | single noTimeout healthy => exact ⟨fun _ => .inl noTimeout, fun _ => healthy.onlyCalls⟩
  | several timeout doomed =>
      rw [doomed.onlyCalls_iff]
      exact ⟨.inr, fun either => either.resolve_left timeout⟩

/-- One timeout before the pi has booted. -/
def timeoutActions : List Action :=
  schedule [(1, .unixSends), (1, .unixTimesOut), (1, .unixSends), (2, .deliverToPi),
    (1, .piReads), (61, .piSends), (1, .piReads)]

theorem timeoutActions_reach :
    (run? wordDevice storeAndLoad 0 timeoutActions).map
      (fun s => (s.pi.phase, s.unix.issued, s.pi.opcodes)) =
        some (.panicked Pi.unexpectedOp, [], [Opcode.ready.code]) := by
  decide +kernel

theorem handshake_safe_iff_of_timeout :
    ∃ s, run? wordDevice storeAndLoad 0 timeoutActions = some s ∧
      (s.OnlyCalls ↔ s.unix.timeouts = 0 ∨ s.pi.opcodes = []) := by
  obtain ⟨s, ran, _⟩ := Option.map_eq_some_iff.mp timeoutActions_reach
  exact ⟨s, ran, handshake_safe_iff ran⟩

/-- With one timeout the loop of the pi dies over the second `PI_READY`. -/
theorem timeout_kills_pi :
    ∃ s, run? wordDevice storeAndLoad 0 timeoutActions = some s ∧
      s.pi.phase = .panicked Pi.unexpectedOp ∧ s.unix.issued = [] ∧
      s.pi.opcodes = [Opcode.ready.code] ∧ ¬ s.OnlyCalls := by
  obtain ⟨s, ran, same⟩ := Option.map_eq_some_iff.mp timeoutActions_reach
  obtain ⟨phase, rest⟩ := Prod.mk.inj same
  obtain ⟨issued, opcodes⟩ := Prod.mk.inj rest
  exact ⟨s, ran, phase, issued, opcodes, fun safe => safe.2 phase⟩

end Cs140e.FakePi
