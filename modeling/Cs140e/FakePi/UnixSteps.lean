import Cs140e.FakePi.PiSteps

/-!
# Every step of the unix side keeps the session invariant

The unix side reads the rest of a print message, a print message, the answer
or the bytes of the answered word, and nothing else is ever on its way.
-/

namespace Cs140e.FakePi

open Cs140e.Library

variable {D : Type} {device : Device D} {program : Program} {memory : D}

/-! ## How the link reacts -/

namespace Link

variable {unix : UnixPhase} {caller : GetOpCaller} {char : Bool} {pi : PiPhase}
  {history performed : List Access} {requests : List Request}
  {half before answer after : List UInt8}

/-- In `get_op` the rest of a print message is on its way exactly as `char` says. -/
theorem half_of_getOp
    (link : Link program (.getOp caller char) pi history performed requests half before answer
      after) : Half char half := by
  cases link with
  | running puts unixEq => cases unixEq
  | asking puts addr char' unixEq serving calls historyEq requestsEq halfEq =>
      cases unixEq
      exact halfEq
  | loaded addr val char' unixEq piEq performedEq requestsEq halfEq =>
      cases unixEq
      exact halfEq
  | answered addr val char' unixEq piEq performedEq requestsEq halfEq =>
      cases unixEq
      exact halfEq
  | receiving addr val got unixEq => cases unixEq
  | leaving puts char' unixEq serving historyEq requestsEq halfEq =>
      cases unixEq
      exact halfEq
  | left char' unixEq piEq historyEq requestsEq halfEq =>
      cases unixEq
      exact halfEq

/-- Reading a part of a print message changes nothing else. -/
theorem turn
    (link : Link program (.getOp caller char) pi history performed requests half before answer
      after) {char' : Bool} {half' : List UInt8} (halfEq : Half char' half')
    (before' : List UInt8) :
    Link program (.getOp caller char') pi history performed requests half' before' answer
      after := by
  cases link with
  | running puts unixEq => cases unixEq
  | asking puts addr _ unixEq serving calls historyEq requestsEq _ answerEq afterEq =>
      cases unixEq
      exact .asking puts addr char' rfl serving calls historyEq requestsEq halfEq answerEq afterEq
  | loaded addr val _ unixEq piEq performedEq requestsEq _ answerEq afterEq =>
      cases unixEq
      exact .loaded addr val char' rfl piEq performedEq requestsEq halfEq answerEq afterEq
  | answered addr val _ unixEq piEq performedEq requestsEq _ answerEq =>
      cases unixEq
      exact .answered addr val char' rfl piEq performedEq requestsEq halfEq answerEq
  | receiving addr val got unixEq => cases unixEq
  | leaving puts _ unixEq serving historyEq requestsEq _ answerEq afterEq =>
      cases unixEq
      exact .leaving puts char' (.getOp char') serving historyEq requestsEq halfEq answerEq
        afterEq
  | left _ unixEq piEq historyEq requestsEq _ answerEq afterEq =>
      cases unixEq
      exact .left char' (.getOp char') piEq historyEq requestsEq halfEq answerEq afterEq

/-- After the prints, `get_op` finds the answer it waits for or nothing. -/
theorem answer_comes
    (link : Link program (.getOp caller char) pi history performed requests half before answer
      after) :
    (answer = [] ∧ after = []) ∨
      ∃ addr val, caller = .reply addr ∧ pi = .nextOp ∧
        performed = history ++ [.load addr val] ∧ requests = [] ∧
        answer = Opcode.get32Reply.code :: LittleEndian.bytesOf val := by
  cases link with
  | running puts unixEq => cases unixEq
  | asking puts addr _ _ _ _ _ _ _ answerEq afterEq => exact .inl ⟨answerEq, afterEq⟩
  | loaded addr val _ _ _ _ _ _ answerEq afterEq => exact .inl ⟨answerEq, afterEq⟩
  | answered addr val _ unixEq piEq performedEq requestsEq _ answerEq =>
      cases unixEq
      exact .inr ⟨addr, val, rfl, piEq, performedEq, requestsEq, answerEq⟩
  | receiving addr val got unixEq => cases unixEq
  | leaving puts _ _ _ _ _ _ answerEq afterEq => exact .inl ⟨answerEq, afterEq⟩
  | left _ _ _ _ _ _ answerEq afterEq => exact .inl ⟨answerEq, afterEq⟩

/-- In `get_uint32` the rest of the answered word is on its way. -/
theorem of_getVal {addr : UInt32} {got : List UInt8}
    (link : Link program (.getVal addr got) pi history performed requests half before answer
      after) :
    ∃ val, pi = .nextOp ∧ performed = history ++ [.load addr val] ∧ requests = [] ∧
      half = [] ∧ before = [] ∧ got ++ answer = LittleEndian.bytesOf val ∧ answer ≠ [] := by
  cases link with
  | running puts unixEq => cases unixEq
  | asking puts addr _ unixEq => cases unixEq
  | loaded addr val _ unixEq => cases unixEq
  | answered addr val _ unixEq => cases unixEq
  | receiving addr' val got' unixEq piEq performedEq requestsEq halfEq beforeEq split more =>
      cases unixEq
      exact ⟨val, piEq, performedEq, requestsEq, halfEq, beforeEq, split, more⟩
  | leaving puts _ unixEq => cases unixEq
  | left _ unixEq => cases unixEq

/-- While the program runs, everything not performed yet is a put. -/
theorem of_running
    (link : Link program .running pi history performed requests half before answer after) :
    ∃ puts, pi.Serving ∧ history = performed ++ putAccesses puts ∧ requests = putRequests puts ∧
      half = [] ∧ answer = [] ∧ after = [] := by
  cases link with
  | running puts _ serving historyEq requestsEq halfEq answerEq afterEq =>
      exact ⟨puts, serving, historyEq, requestsEq, halfEq, answerEq, afterEq⟩
  | asking puts addr _ unixEq => cases unixEq
  | loaded addr val _ unixEq => cases unixEq
  | answered addr val _ unixEq => cases unixEq
  | receiving addr val got unixEq => cases unixEq
  | leaving puts _ unixEq => cases unixEq
  | left _ unixEq => cases unixEq

/-- Between two calls of `get_op`, `clean_reboot` reads on or exits. -/
theorem flush {next : UnixPhase}
    (link : Link program .flushing pi history performed requests half before answer after)
    (leaving : Leaving next false) :
    Link program next pi history performed requests half before answer after := by
  cases link with
  | running puts unixEq => cases unixEq
  | asking puts addr _ unixEq => cases unixEq
  | loaded addr val _ unixEq => cases unixEq
  | answered addr val _ unixEq => cases unixEq
  | receiving addr val got unixEq => cases unixEq
  | leaving puts _ unixEq serving historyEq requestsEq halfEq answerEq afterEq =>
      cases unixEq
      exact .leaving puts false leaving serving historyEq requestsEq halfEq answerEq afterEq
  | left _ unixEq piEq historyEq requestsEq halfEq answerEq afterEq =>
      cases unixEq
      exact .left false leaving piEq historyEq requestsEq halfEq answerEq afterEq

theorem not_pinged
    (link : Link program unix pi history performed requests half before answer after) :
    unix ≠ .pinged := by
  rintro rfl
  cases link with
  | running puts unixEq => cases unixEq
  | asking puts addr _ unixEq => cases unixEq
  | loaded addr val _ unixEq => cases unixEq
  | answered addr val _ unixEq => cases unixEq
  | receiving addr val got unixEq => cases unixEq
  | leaving puts _ unixEq => cases unixEq
  | left _ unixEq => cases unixEq

end Link

/-! ## Steps of the unix side -/

variable {s next : System D} {current queued : List Request}
  {half before answer after : List UInt8}

/-- The unix side is somewhere else in the messages of the pi, and the rest of
the system is unchanged. -/
theorem Session.unix_moves
    (session : Session device program memory s current queued half before answer after)
    {half' before' answer' after' : List UInt8} (piEq : next.pi = s.pi)
    (down : next.toPi.items = s.toPi.items)
    (issued : next.unix.issued = s.unix.issued)
    (up : next.toUnix.items = half' ++ (printChars before' ++ (answer' ++ printChars after')))
    (printed : next.unix.printed ++ (half' ++ (before' ++ after')) = s.pi.printed)
    (asked : ∃ state, LocalRun device program memory next.unix.history state)
    (link : Link program next.unix.phase s.pi.phase next.unix.history s.pi.performed
      (current ++ queued) half' before' answer' after') :
    Session device program memory next current queued half' before' answer' after' where
  reading := by rw [piEq, down]; exact session.reading
  opcodes := by rw [issued, piEq]; exact session.opcodes
  up := up
  printed := by rw [piEq]; exact printed
  performed := by rw [piEq]; exact session.performed
  asked := asked
  link := by rw [piEq]; exact link

/-- `get_op` reads a byte. -/
theorem Session.unix_reads_op
    (session : Session device program memory s current queued half before answer after)
    {caller : GetOpCaller} {char : Bool} (phaseEq : s.unix.phase = .getOp caller char)
    {byte : UInt8} (read : s.unix.read? byte = some next.unix) (piEq : next.pi = s.pi)
    (down : next.toPi.items = s.toPi.items) (up : s.toUnix.items = byte :: next.toUnix.items) :
    ∃ half before answer,
      Session device program memory next current queued half before answer after := by
  have link := session.link
  rw [phaseEq] at link
  have halfEq := link.half_of_getOp
  have items := session.up
  rw [up] at items
  have printed := session.printed
  rw [Unix.read?, phaseEq] at read
  cases char with
  | true =>
      obtain ⟨c, rfl⟩ := List.length_eq_one_iff.mp halfEq
      obtain ⟨rfl, rest⟩ := List.cons.inj items
      have unixEq := Option.some.inj read
      refine ⟨[], before, answer, session.unix_moves piEq down ?_ rest ?_ ?_ ?_⟩
      · rw [← unixEq]
      · rw [← unixEq, ← printed]
        exact List.append_assoc _ _ _
      · rw [← unixEq]
        exact session.asked
      · rw [← unixEq]
        have halfDone : Half false [] := rfl
        exact link.turn halfDone before
  | false =>
      have none : half = [] := List.eq_nil_of_length_eq_zero halfEq
      subst none
      cases before with
      | cons c before =>
          obtain ⟨rfl, rest⟩ := List.cons.inj items
          have unixEq := Option.some.inj read
          refine ⟨[c], before, answer, session.unix_moves piEq down ?_ rest ?_ ?_ ?_⟩
          · rw [← unixEq]
          · rw [← unixEq]
            exact printed
          · rw [← unixEq]
            exact session.asked
          · rw [← unixEq]
            have halfBegun : Half true [c] := rfl
            exact link.turn halfBegun before
      | nil =>
          -- Only the answer is left, and `expect_op` accepts it.
          rcases link.answer_comes with ⟨rfl, rfl⟩ | ⟨addr, val, rfl, piPhase, performedEq,
            requestsEq, rfl⟩
          · cases items
          · obtain ⟨rfl, rest⟩ := List.cons.inj items
            have unixEq := Option.some.inj read
            change { s.unix with phase := .getVal addr [] } = next.unix at unixEq
            refine ⟨[], [], LittleEndian.bytesOf val,
              session.unix_moves piEq down ?_ rest ?_ ?_ ?_⟩
            · rw [← unixEq]
            · rw [← unixEq]
              exact printed
            · rw [← unixEq]
              exact session.asked
            · rw [← unixEq]
              exact .receiving addr val [] rfl piPhase performedEq requestsEq rfl rfl
                (List.nil_append _) (List.cons_ne_nil _ _)

/-- `get_uint32` reads a byte of the answered word. -/
theorem Session.unix_reads_val
    (session : Session device program memory s current queued half before answer after)
    {addr : UInt32} {got : List UInt8} (phaseEq : s.unix.phase = .getVal addr got)
    {byte : UInt8} (read : s.unix.read? byte = some next.unix) (piEq : next.pi = s.pi)
    (down : next.toPi.items = s.toPi.items) (up : s.toUnix.items = byte :: next.toUnix.items) :
    ∃ before answer after,
      Session device program memory next current queued [] before answer after := by
  have link := session.link
  rw [phaseEq] at link
  obtain ⟨val, piPhase, performedEq, requestsEq, rfl, rfl, split, more⟩ := link.of_getVal
  have items := session.up
  rw [up] at items
  have printed := session.printed
  rw [Unix.read?, phaseEq] at read
  dsimp only at read
  cases answer with
  | nil => exact absurd rfl more
  | cons first answer =>
      obtain ⟨rfl, rest⟩ := List.cons.inj items
      rcases collect_word split with ⟨last, rfl, word⟩ | ⟨notLast, moreLeft, split⟩
      · rw [if_pos last, word] at read
        have unixEq := Option.some.inj read
        have performed := session.performed
        rw [performedEq] at performed
        refine ⟨after, [], [], session.unix_moves piEq down ?_ ?_ ?_ ?_ ?_⟩
        · rw [← unixEq]
        · rw [rest]
          simp only [printChars_nil, List.append_nil]
          rfl
        · rw [← unixEq, List.append_nil]
          exact printed
        · rw [← unixEq]
          exact ⟨_, performed⟩
        · rw [← unixEq, performedEq]
          have serving : PiPhase.Serving s.pi.phase := by rw [piPhase]; trivial
          exact .running [] rfl serving (List.append_nil _).symm requestsEq rfl rfl rfl
      · rw [if_neg notLast] at read
        have unixEq := Option.some.inj read
        refine ⟨[], answer, after, session.unix_moves piEq down ?_ rest ?_ ?_ ?_⟩
        · rw [← unixEq]
        · rw [← unixEq]
          exact printed
        · rw [← unixEq]
          exact session.asked
        · rw [← unixEq]
          exact .receiving addr val _ rfl piPhase performedEq requestsEq rfl rfl split moreLeft

theorem Session.unix_reads
    (session : Session device program memory s current queued half before answer after)
    {byte : UInt8} (read : s.unix.read? byte = some next.unix) (piEq : next.pi = s.pi)
    (down : next.toPi.items = s.toPi.items) (up : s.toUnix.items = byte :: next.toUnix.items) :
    ∃ half before answer after,
      Session device program memory next current queued half before answer after := by
  cases phaseEq : s.unix.phase with
  | getOp caller char =>
      obtain ⟨half, before, answer, kept⟩ := session.unix_reads_op phaseEq read piEq down up
      exact ⟨half, before, answer, after, kept⟩
  | getVal addr got =>
      obtain ⟨before, answer, after, kept⟩ := session.unix_reads_val phaseEq read piEq down up
      exact ⟨[], before, answer, after, kept⟩
  | _ =>
      rw [Unix.read?, phaseEq] at read
      cases read

/-- The program makes its next call. -/
theorem Session.unix_calls
    (session : Session device program memory s current queued half before answer after)
    (running : s.unix.phase = .running)
    (unixEq : next.unix = s.unix.call (program s.unix.history)) (piEq : next.pi = s.pi)
    (down : next.toPi.items = s.toPi.items ++ (program s.unix.history).encode)
    (up : next.toUnix.items = s.toUnix.items) :
    Session device program memory next current (queued ++ [program s.unix.history]) half before
      answer after := by
  have link := session.link
  rw [running] at link
  obtain ⟨puts, serving, historyEq, requestsEq, rfl, rfl, rfl⟩ := link.of_running
  obtain ⟨rest, reading, items⟩ := session.reading
  obtain ⟨state, run⟩ := session.asked
  have downAfter : next.toPi.items = rest ++ encodeAll (queued ++ [program s.unix.history]) := by
    rw [down, items, encodeAll_append, List.append_assoc]
    simp only [encodeAll_cons, encodeAll_nil, List.append_nil]
  have opcodes : (s.unix.issued ++ [(program s.unix.history).opcode]).map Opcode.code =
      s.pi.opcodes ++ (queued ++ [program s.unix.history]).map fun request =>
        request.opcode.code := by
    rw [List.map_append, session.opcodes, List.map_append, List.append_assoc]
    rfl
  have printed := session.printed
  have requestsAfter : current ++ (queued ++ [program s.unix.history]) =
      putRequests puts ++ [program s.unix.history] := by
    rw [← List.append_assoc, requestsEq]
  cases calls : program s.unix.history with
  | put32 addr val =>
      rw [calls] at unixEq downAfter opcodes requestsAfter
      exact {
        reading := ⟨rest, by rw [piEq]; exact reading, downAfter⟩
        opcodes := by rw [unixEq, piEq]; exact opcodes
        up := by rw [up]; exact session.up
        printed := by rw [unixEq, piEq]; exact printed
        performed := by rw [piEq]; exact session.performed
        asked := by rw [unixEq]; exact ⟨_, .store run calls⟩
        link := by
          rw [unixEq, piEq]
          refine .running (puts ++ [(addr, val)]) running serving ?_ ?_ rfl rfl rfl
          · rw [putAccesses, List.map_append, ← List.append_assoc]
            exact congrArg (· ++ [Access.store addr val]) historyEq
          · rw [requestsAfter, putRequests, putRequests, List.map_append]
            rfl }
  | get32 addr =>
      rw [calls] at unixEq downAfter opcodes requestsAfter
      exact {
        reading := ⟨rest, by rw [piEq]; exact reading, downAfter⟩
        opcodes := by rw [unixEq, piEq]; exact opcodes
        up := by rw [up]; exact session.up
        printed := by rw [unixEq, piEq]; exact printed
        performed := by rw [piEq]; exact session.performed
        asked := by rw [unixEq]; exact ⟨_, run⟩
        link := by
          rw [unixEq, piEq]
          exact .asking puts addr false rfl serving calls historyEq requestsAfter rfl rfl rfl }
  | reboot =>
      rw [calls] at unixEq downAfter opcodes requestsAfter
      exact {
        reading := ⟨rest, by rw [piEq]; exact reading, downAfter⟩
        opcodes := by rw [unixEq, piEq]; exact opcodes
        up := by rw [up]; exact session.up
        printed := by rw [unixEq, piEq]; exact printed
        performed := by rw [piEq]; exact session.performed
        asked := by rw [unixEq]; exact ⟨_, run⟩
        link := by
          rw [unixEq, piEq]
          exact .leaving puts false .flushing serving historyEq requestsAfter rfl rfl rfl }

/-- `can_read_timeout` in `clean_reboot` answers yes or no. -/
theorem Session.unix_flushes
    (session : Session device program memory s current queued half before answer after)
    (flushing : s.unix.phase = .flushing) {phase : UnixPhase} (leaving : Leaving phase false)
    (unixEq : next.unix = { s.unix with phase := phase }) (piEq : next.pi = s.pi)
    (down : next.toPi.items = s.toPi.items) (up : next.toUnix.items = s.toUnix.items) :
    Session device program memory next current queued half before answer after := by
  have link := session.link
  rw [flushing] at link
  refine session.unix_moves piEq down ?_ ?_ ?_ ?_ ?_
  · rw [unixEq]
  · rw [up]
    exact session.up
  · rw [unixEq]
    exact session.printed
  · rw [unixEq]
    exact session.asked
  · rw [unixEq]
    exact link.flush leaving

end Cs140e.FakePi
