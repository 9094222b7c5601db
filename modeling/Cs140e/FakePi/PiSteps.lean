import Cs140e.FakePi.Session

/-!
# Every step of the pi keeps the session invariant

One lemma for each thing the pi can do, on top of how the link between the two
program points reacts to it.
-/

namespace Cs140e.FakePi

open Cs140e.Library

variable {D : Type} {device : Device D} {program : Program} {memory : D}

/-- One more byte either completes a word or leaves bytes of it to be read. -/
theorem collect_word {word : UInt32} {got rest : List UInt8} {byte : UInt8}
    (split : got ++ byte :: rest = LittleEndian.bytesOf word) :
    (got.length + 1 = 4 ∧ rest = [] ∧ LittleEndian.wordOf (got ++ [byte]) = word) ∨
      (got.length + 1 ≠ 4 ∧ rest ≠ [] ∧ got ++ [byte] ++ rest = LittleEndian.bytesOf word) := by
  have total : got.length + (rest.length + 1) = 4 := by
    have := congrArg List.length split
    rwa [List.length_append, List.length_cons, LittleEndian.length_bytesOf] at this
  by_cases last : got.length + 1 = 4
  · have done : rest = [] := List.eq_nil_of_length_eq_zero (by omega)
    subst done
    exact .inl ⟨last, rfl, by rw [split, LittleEndian.wordOf_bytesOf]⟩
  · refine .inr ⟨last, fun done => last (by rw [done, List.length_nil] at total; omega), ?_⟩
    rw [List.append_assoc, List.singleton_append, split]

/-- The pi reads the next byte of its current request. -/
theorem Reading.read {pi after : Pi D} {bytes rest written : List UInt8} {byte : UInt8}
    {current : List Request} (reading : Reading pi.phase bytes current)
    (bytesEq : bytes = byte :: rest) (read : pi.read? byte = some (after, written)) :
    written = [] ∧ Reading after.phase rest current ∧ after.phase.Serving ∧
      after = { pi with phase := after.phase } := by
  obtain ⟨phase, state, performed, opcodes, printed⟩ := pi
  dsimp only at reading
  cases reading with
  | nextOp => cases bytesEq
  | replying val => cases bytesEq
  | rebooted => cases bytesEq
  | loading addr => cases bytesEq
  | storing addr val => cases bytesEq
  | @getAddr addr got _ split more =>
      subst bytesEq
      rcases collect_word split with ⟨last, rfl, word⟩ | ⟨notLast, moreLeft, split⟩
      · cases (if_pos last).symm.trans read
        rw [word]
        exact ⟨rfl, .loading addr, trivial, rfl⟩
      · cases (if_neg notLast).symm.trans read
        exact ⟨rfl, .getAddr split moreLeft, trivial, rfl⟩
  | @putVal addr val got _ split more =>
      subst bytesEq
      rcases collect_word split with ⟨last, rfl, word⟩ | ⟨notLast, moreLeft, split⟩
      · cases (if_pos last).symm.trans read
        rw [word]
        exact ⟨rfl, .storing addr val, trivial, rfl⟩
      · cases (if_neg notLast).symm.trans read
        exact ⟨rfl, .putVal split moreLeft, trivial, rfl⟩
  | @putAddr addr val got addrRest split more =>
      cases addrRest with
      | nil => exact absurd rfl more
      | cons first addrRest =>
          cases bytesEq
          rcases collect_word split with ⟨last, rfl, word⟩ | ⟨notLast, moreLeft, split⟩
          · cases (if_pos last).symm.trans read
            rw [word]
            exact ⟨rfl, .putVal (List.nil_append _) (List.cons_ne_nil _ _), trivial, rfl⟩
          · cases (if_neg notLast).symm.trans read
            exact ⟨rfl, .putAddr split moreLeft, trivial, rfl⟩

/-- With nothing left of its current request the pi can only read an opcode. -/
theorem Reading.read_opcode {pi after : Pi D} {bytes written : List UInt8} {byte : UInt8}
    {current : List Request} (reading : Reading pi.phase bytes current) (bytesEq : bytes = [])
    (read : pi.read? byte = some (after, written)) :
    current = [] ∧ (after, written) = pi.gotOp byte := by
  obtain ⟨phase, state, performed, opcodes, printed⟩ := pi
  dsimp only at reading
  cases reading with
  | nextOp => exact ⟨rfl, (Option.some.inj read).symm⟩
  | replying val => cases read
  | rebooted => cases read
  | loading addr => cases read
  | storing addr val => cases read
  | getAddr split more => exact absurd bytesEq more
  | putVal split more => exact absurd bytesEq more
  | putAddr split more => exact absurd (List.append_eq_nil_iff.mp bytesEq).1 more

/-- Unread bytes belong to a current request. -/
theorem Reading.current_ne_nil {phase : PiPhase} {rest : List UInt8} {current : List Request}
    (reading : Reading phase rest current) (unread : rest ≠ []) : current ≠ [] := by
  cases reading with
  | nextOp => exact absurd rfl unread
  | replying val => exact absurd rfl unread
  | rebooted => exact absurd rfl unread
  | _ => exact List.cons_ne_nil _ _

/-! ## How the link reacts -/

namespace Link

variable {unix : UnixPhase} {pi : PiPhase} {history performed : List Access}
  {requests : List Request} {half before answer after : List UInt8}

/-- While requests are in flight the pi may move between serving phases. -/
theorem serve (link : Link program unix pi history performed requests half before answer after)
    (inFlight : requests ≠ []) {next : PiPhase} (serving : next.Serving) :
    Link program unix next history performed requests half before answer after := by
  cases link with
  | running puts unixEq _ historyEq requestsEq halfEq answerEq afterEq =>
      exact .running puts unixEq serving historyEq requestsEq halfEq answerEq afterEq
  | asking puts addr char unixEq _ calls historyEq requestsEq halfEq answerEq afterEq =>
      exact .asking puts addr char unixEq serving calls historyEq requestsEq halfEq answerEq
        afterEq
  | loaded addr val char unixEq piEq performedEq requestsEq => exact absurd requestsEq inFlight
  | answered addr val char unixEq piEq performedEq requestsEq => exact absurd requestsEq inFlight
  | receiving addr val got unixEq piEq performedEq requestsEq => exact absurd requestsEq inFlight
  | leaving puts char unixEq _ historyEq requestsEq halfEq answerEq afterEq =>
      exact .leaving puts char unixEq serving historyEq requestsEq halfEq answerEq afterEq
  | left char unixEq piEq historyEq requestsEq => exact absurd requestsEq inFlight

/-- A put at the front is performed before everything else. -/
theorem perform_put {addr val : UInt32} {rest : List Request}
    (link : Link program unix pi history performed (.put32 addr val :: rest) half before answer
      after)
    {next : PiPhase} (serving : next.Serving) :
    (∃ later, history = performed ++ .store addr val :: later) ∧
      Link program unix next history (performed ++ [.store addr val]) rest half before answer
        after := by
  cases link with
  | running puts unixEq _ historyEq requestsEq halfEq answerEq afterEq =>
      cases puts with
      | nil => cases requestsEq
      | cons put puts =>
          cases requestsEq
          refine ⟨⟨putAccesses puts, historyEq⟩,
            .running puts unixEq serving ?_ rfl halfEq answerEq afterEq⟩
          rw [historyEq, List.append_assoc]
          rfl
  | asking puts getAddr char unixEq _ calls historyEq requestsEq halfEq answerEq afterEq =>
      cases puts with
      | nil => cases requestsEq
      | cons put puts =>
          cases requestsEq
          refine ⟨⟨putAccesses puts, historyEq⟩,
            .asking puts getAddr char unixEq serving calls ?_ rfl halfEq answerEq afterEq⟩
          rw [historyEq, List.append_assoc]
          rfl
  | leaving puts char unixEq _ historyEq requestsEq halfEq answerEq afterEq =>
      cases puts with
      | nil => cases requestsEq
      | cons put puts =>
          cases requestsEq
          refine ⟨⟨putAccesses puts, historyEq⟩,
            .leaving puts char unixEq serving ?_ rfl halfEq answerEq afterEq⟩
          rw [historyEq, List.append_assoc]
          rfl
  | loaded _ _ _ _ _ _ requestsEq => cases requestsEq
  | answered _ _ _ _ _ _ requestsEq => cases requestsEq
  | receiving _ _ _ _ _ _ requestsEq => cases requestsEq
  | left _ _ _ _ requestsEq => cases requestsEq

/-- A get at the front is the last request, and the program is waiting for it. -/
theorem perform_get {addr : UInt32} {rest : List Request}
    (link : Link program unix pi history performed (.get32 addr :: rest) half before answer after)
    (val : UInt32) :
    rest = [] ∧ program performed = .get32 addr ∧
      Link program unix (.replying val) history (performed ++ [.load addr val]) [] half before
        answer after := by
  cases link with
  | running puts unixEq _ historyEq requestsEq =>
      cases puts with
      | nil => cases requestsEq
      | cons put puts => cases requestsEq
  | asking puts getAddr char unixEq _ calls historyEq requestsEq halfEq answerEq afterEq =>
      cases puts with
      | nil =>
          cases requestsEq
          have same : history = performed := by rw [historyEq]; exact List.append_nil _
          subst same
          exact ⟨rfl, calls, .loaded addr val char unixEq rfl rfl rfl halfEq answerEq afterEq⟩
      | cons put puts => cases requestsEq
  | leaving puts char unixEq _ historyEq requestsEq =>
      cases puts with
      | nil => cases requestsEq
      | cons put puts => cases requestsEq
  | loaded _ _ _ _ _ _ requestsEq => cases requestsEq
  | answered _ _ _ _ _ _ requestsEq => cases requestsEq
  | receiving _ _ _ _ _ _ requestsEq => cases requestsEq
  | left _ _ _ _ requestsEq => cases requestsEq

/-- A reboot at the front is the last request of the program. -/
theorem perform_reboot {rest : List Request}
    (link : Link program unix pi history performed (.reboot :: rest) half before answer after)
    (chars : List UInt8) :
    rest = [] ∧ answer = [] ∧ after = [] ∧
      Link program unix .rebooted history performed [] half (before ++ chars) answer after := by
  cases link with
  | running puts unixEq _ historyEq requestsEq =>
      cases puts with
      | nil => cases requestsEq
      | cons put puts => cases requestsEq
  | asking puts getAddr char unixEq _ calls historyEq requestsEq =>
      cases puts with
      | nil => cases requestsEq
      | cons put puts => cases requestsEq
  | leaving puts char unixEq _ historyEq requestsEq halfEq answerEq afterEq =>
      cases puts with
      | nil =>
          cases requestsEq
          have same : history = performed := by rw [historyEq]; exact List.append_nil _
          exact ⟨rfl, answerEq, afterEq, .left char unixEq rfl same rfl halfEq answerEq afterEq⟩
      | cons put puts => cases requestsEq
  | loaded _ _ _ _ _ _ requestsEq => cases requestsEq
  | answered _ _ _ _ _ _ requestsEq => cases requestsEq
  | receiving _ _ _ _ _ _ requestsEq => cases requestsEq
  | left _ _ _ _ requestsEq => cases requestsEq

/-- The reply becomes the answer the unix side waits for. -/
theorem reply {val : UInt32}
    (link : Link program unix (.replying val) history performed requests half before answer after) :
    Link program unix .nextOp history performed requests half before
      (Opcode.get32Reply.code :: LittleEndian.bytesOf val) after ∧ answer = [] ∧ after = [] := by
  cases link with
  | loaded addr val char unixEq piEq performedEq requestsEq halfEq answerEq afterEq =>
      cases piEq
      exact ⟨.answered addr val char unixEq rfl performedEq requestsEq halfEq rfl, answerEq,
        afterEq⟩
  | running puts unixEq serving => exact serving.elim
  | asking puts addr char unixEq serving => exact serving.elim
  | leaving puts char unixEq serving => exact serving.elim
  | answered addr val char unixEq piEq => cases piEq
  | receiving addr val got unixEq piEq => cases piEq
  | left char unixEq piEq => cases piEq

/-- A print of the pi goes in front of an answer not sent yet, else behind it. -/
theorem print (link : Link program unix pi history performed requests half before answer after)
    (chars : List UInt8) :
    (answer = [] ∧ after = [] ∧
      Link program unix pi history performed requests half (before ++ chars) answer after) ∨
      Link program unix pi history performed requests half before answer (after ++ chars) := by
  cases link with
  | running puts unixEq serving historyEq requestsEq halfEq answerEq afterEq =>
      exact .inl ⟨answerEq, afterEq,
        .running puts unixEq serving historyEq requestsEq halfEq answerEq afterEq⟩
  | asking puts addr char unixEq serving calls historyEq requestsEq halfEq answerEq afterEq =>
      exact .inl ⟨answerEq, afterEq,
        .asking puts addr char unixEq serving calls historyEq requestsEq halfEq answerEq afterEq⟩
  | loaded addr val char unixEq piEq performedEq requestsEq halfEq answerEq afterEq =>
      exact .inl ⟨answerEq, afterEq,
        .loaded addr val char unixEq piEq performedEq requestsEq halfEq answerEq afterEq⟩
  | answered addr val char unixEq piEq performedEq requestsEq halfEq answerEq =>
      exact .inr (.answered addr val char unixEq piEq performedEq requestsEq halfEq answerEq)
  | receiving addr val got unixEq piEq performedEq requestsEq halfEq beforeEq split more =>
      exact .inr (.receiving addr val got unixEq piEq performedEq requestsEq halfEq beforeEq split
        more)
  | leaving puts char unixEq serving historyEq requestsEq halfEq answerEq afterEq =>
      exact .inl ⟨answerEq, afterEq,
        .leaving puts char unixEq serving historyEq requestsEq halfEq answerEq afterEq⟩
  | left char unixEq piEq historyEq requestsEq halfEq answerEq afterEq =>
      exact .inl ⟨answerEq, afterEq,
        .left char unixEq piEq historyEq requestsEq halfEq answerEq afterEq⟩

end Link

/-! ## Steps of the pi -/

variable {s next : System D} {current queued : List Request}
  {half before answer after : List UInt8}

theorem Session.moves
    (session : Session device program memory s current queued half before answer after)
    (unixEq : next.unix = s.unix) (piEq : next.pi = s.pi)
    (down : next.toPi.items = s.toPi.items) (up : next.toUnix.items = s.toUnix.items) :
    Session device program memory next current queued half before answer after where
  reading := by rw [piEq, down]; exact session.reading
  opcodes := by rw [unixEq, piEq]; exact session.opcodes
  up := by rw [up]; exact session.up
  printed := by rw [unixEq, piEq]; exact session.printed
  performed := by rw [piEq]; exact session.performed
  asked := by rw [unixEq]; exact session.asked
  link := by rw [unixEq, piEq]; exact session.link

/-- The pi reads a byte inside its current request. -/
theorem Session.pi_reads_argument
    (session : Session device program memory s current queued half before answer after)
    {byte : UInt8} {rest written : List UInt8} (reading : Reading s.pi.phase (byte :: rest) current)
    (read : s.pi.read? byte = some (next.pi, written)) (unixEq : next.unix = s.unix)
    (down : next.toPi.items = rest ++ encodeAll queued)
    (up : next.toUnix.items = s.toUnix.items ++ written) :
    Session device program memory next current queued half before answer after := by
  obtain ⟨rfl, readingAfter, serving, piEq⟩ := reading.read rfl read
  have inFlight : current ++ queued ≠ [] := fun none =>
    reading.current_ne_nil (List.cons_ne_nil _ _) (List.append_eq_nil_iff.mp none).1
  have performedEq : next.pi.performed = s.pi.performed := by rw [piEq]
  have deviceEq : next.pi.device = s.pi.device := by rw [piEq]
  have opcodesEq : next.pi.opcodes = s.pi.opcodes := by rw [piEq]
  have printedEq : next.pi.printed = s.pi.printed := by rw [piEq]
  exact {
    reading := ⟨rest, readingAfter, down⟩
    opcodes := by rw [unixEq, opcodesEq]; exact session.opcodes
    up := by rw [up, List.append_nil]; exact session.up
    printed := by rw [unixEq, printedEq]; exact session.printed
    performed := by rw [performedEq, deviceEq]; exact session.performed
    asked := by rw [unixEq]; exact session.asked
    link := by rw [unixEq, performedEq]; exact session.link.serve inFlight serving }

/-- The pi takes the opcode of the next request. -/
theorem Session.pi_reads_opcode {request : Request}
    (session : Session device program memory s [] (request :: queued) half before answer after)
    {written : List UInt8}
    (took : (next.pi, written) = s.pi.gotOp request.opcode.code) (unixEq : next.unix = s.unix)
    (down : next.toPi.items = request.arguments ++ encodeAll queued)
    (up : next.toUnix.items = s.toUnix.items ++ written) :
    ∃ current queued before,
      Session device program memory next current queued half before answer after := by
  have inFlight : [] ++ request :: queued ≠ [] := List.cons_ne_nil _ _
  have opcodes := session.opcodes
  rw [List.map_cons, ← List.singleton_append, ← List.append_assoc] at opcodes
  cases request with
  | put32 addr val =>
      obtain ⟨piEq, rfl⟩ := Prod.mk.inj took
      change next.pi = { s.pi with
        opcodes := s.pi.opcodes ++ [Opcode.put32.code], phase := .putAddr [] } at piEq
      refine ⟨[.put32 addr val], queued, before, ?_⟩
      exact {
        reading :=
          ⟨_, by rw [piEq]; exact .putAddr (List.nil_append _) (List.cons_ne_nil _ _), down⟩
        opcodes := by rw [unixEq, piEq]; exact opcodes
        up := by rw [up, List.append_nil]; exact session.up
        printed := by rw [unixEq, piEq]; exact session.printed
        performed := by rw [piEq]; exact session.performed
        asked := by rw [unixEq]; exact session.asked
        link := by rw [unixEq, piEq]; exact session.link.serve inFlight trivial }
  | get32 addr =>
      obtain ⟨piEq, rfl⟩ := Prod.mk.inj took
      change next.pi = { s.pi with
        opcodes := s.pi.opcodes ++ [Opcode.get32.code], phase := .getAddr [] } at piEq
      refine ⟨[.get32 addr], queued, before, ?_⟩
      exact {
        reading :=
          ⟨_, by rw [piEq]; exact .getAddr (List.nil_append _) (List.cons_ne_nil _ _), down⟩
        opcodes := by rw [unixEq, piEq]; exact opcodes
        up := by rw [up, List.append_nil]; exact session.up
        printed := by rw [unixEq, piEq]; exact session.printed
        performed := by rw [piEq]; exact session.performed
        asked := by rw [unixEq]; exact session.asked
        link := by rw [unixEq, piEq]; exact session.link.serve inFlight trivial }
  | reboot =>
      obtain ⟨piEq, rfl⟩ := Prod.mk.inj took
      change next.pi = { s.pi.print Pi.farewell with
        opcodes := s.pi.opcodes ++ [Opcode.reboot.code], phase := .rebooted } at piEq
      obtain ⟨rfl, rfl, rfl, link⟩ := session.link.perform_reboot Pi.farewell
      refine ⟨[], [], before ++ Pi.farewell, ?_⟩
      exact {
        reading := ⟨[], by rw [piEq]; exact .rebooted, down⟩
        opcodes := by rw [unixEq, piEq]; exact opcodes
        up := by
          rw [up, session.up, printChars_append]
          simp only [printChars_nil, List.append_nil, List.append_assoc]
        printed := by
          rw [unixEq, piEq]
          change _ = s.pi.printed ++ Pi.farewell
          rw [← session.printed]
          simp only [List.append_nil, List.append_assoc]
        performed := by rw [piEq]; exact session.performed
        asked := by rw [unixEq]; exact session.asked
        link := by rw [unixEq, piEq]; exact link }

theorem Session.pi_reads
    (session : Session device program memory s current queued half before answer after)
    {byte : UInt8} {written : List UInt8}
    (read : s.pi.read? byte = some (next.pi, written)) (unixEq : next.unix = s.unix)
    (down : s.toPi.items = byte :: next.toPi.items)
    (up : next.toUnix.items = s.toUnix.items ++ written) :
    ∃ current queued before,
      Session device program memory next current queued half before answer after := by
  obtain ⟨rest, reading, items⟩ := session.reading
  rw [down] at items
  cases rest with
  | cons first rest =>
      obtain ⟨rfl, downAfter⟩ := List.cons.inj items
      exact ⟨current, queued, before,
        session.pi_reads_argument reading read unixEq downAfter up⟩
  | nil =>
      cases queued with
      | nil => cases items
      | cons request queued =>
          obtain ⟨rfl, downAfter⟩ := List.cons.inj items
          obtain ⟨rfl, took⟩ := reading.read_opcode rfl read
          exact session.pi_reads_opcode took unixEq downAfter up

/-- The pi executes its request or sends its reply. -/
theorem Session.pi_works
    (session : Session device program memory s current queued half before answer after)
    {written : List UInt8} (worked : s.pi.work? device = some (next.pi, written))
    (unixEq : next.unix = s.unix) (down : next.toPi.items = s.toPi.items)
    (up : next.toUnix.items = s.toUnix.items ++ written) :
    ∃ current before answer,
      Session device program memory next current queued half before answer after := by
  obtain ⟨rest, reading, items⟩ := session.reading
  obtain ⟨opcodes, upBytes, printed, performed, asked, link⟩ :=
    And.intro session.opcodes (And.intro session.up (And.intro session.printed
      (And.intro session.performed (And.intro session.asked session.link))))
  rw [items] at down
  cases phaseEq : s.pi.phase with
  | loading addr =>
      rw [phaseEq] at reading link
      cases reading
      obtain ⟨rfl, calls, link⟩ := link.perform_get (device.load addr s.pi.device).1
      have done : (next.pi, written) = ({ s.pi with
          phase := .replying (device.load addr s.pi.device).1
          device := (device.load addr s.pi.device).2
          performed := s.pi.performed ++ [.load addr (device.load addr s.pi.device).1] }, []) := by
        rw [Pi.work?, phaseEq] at worked
        exact (Option.some.inj worked).symm
      obtain ⟨piEq, rfl⟩ := Prod.mk.inj done
      refine ⟨[], before, answer, ?_⟩
      exact {
        reading := ⟨[], by rw [piEq]; exact .replying _, down⟩
        opcodes := by rw [unixEq, piEq]; exact opcodes
        up := by rw [up, List.append_nil]; exact upBytes
        printed := by rw [unixEq, piEq]; exact printed
        performed := by rw [piEq]; exact .load performed calls
        asked := by rw [unixEq]; exact asked
        link := by rw [unixEq, piEq]; exact link }
  | storing addr val =>
      rw [phaseEq] at reading link
      cases reading
      have serving : PiPhase.Serving .nextOp := trivial
      obtain ⟨⟨later, split⟩, link⟩ := link.perform_put serving
      have done : (next.pi, written) = ({ s.pi with
          phase := .nextOp
          device := device.store addr val s.pi.device
          performed := s.pi.performed ++ [.store addr val] }, []) := by
        rw [Pi.work?, phaseEq] at worked
        exact (Option.some.inj worked).symm
      obtain ⟨piEq, rfl⟩ := Prod.mk.inj done
      obtain ⟨state, run⟩ := asked
      refine ⟨[], before, answer, ?_⟩
      exact {
        reading := ⟨[], by rw [piEq]; exact .nextOp, down⟩
        opcodes := by rw [unixEq, piEq]; exact opcodes
        up := by rw [up, List.append_nil]; exact upBytes
        printed := by rw [unixEq, piEq]; exact printed
        performed := by rw [piEq]; exact .store performed (run.program_at split)
        asked := by rw [unixEq]; exact ⟨state, run⟩
        link := by rw [unixEq, piEq]; exact link }
  | replying val =>
      rw [phaseEq] at reading link
      cases reading
      have done : (next.pi, written) = ({ s.pi with phase := .nextOp },
          Opcode.get32Reply.code :: LittleEndian.bytesOf val) := by
        rw [Pi.work?, phaseEq] at worked
        exact (Option.some.inj worked).symm
      obtain ⟨piEq, rfl⟩ := Prod.mk.inj done
      obtain ⟨replied, rfl, rfl⟩ := link.reply
      refine ⟨[], before, Opcode.get32Reply.code :: LittleEndian.bytesOf val, ?_⟩
      exact {
        reading := ⟨[], by rw [piEq]; exact .nextOp, down⟩
        opcodes := by rw [unixEq, piEq]; exact opcodes
        up := by
          rw [up, upBytes]
          simp only [printChars_nil, List.append_nil, List.append_assoc]
        printed := by rw [unixEq, piEq]; exact printed
        performed := by rw [piEq]; exact performed
        asked := by rw [unixEq]; exact asked
        link := by rw [unixEq, piEq]; exact replied }
  | _ =>
      rw [Pi.work?, phaseEq] at worked
      cases worked

theorem Session.pi_prints
    (session : Session device program memory s current queued half before answer after)
    {c : UInt8} (piEq : next.pi = s.pi.print [c]) (unixEq : next.unix = s.unix)
    (down : next.toPi.items = s.toPi.items)
    (up : next.toUnix.items = s.toUnix.items ++ printChars [c]) :
    ∃ before after, Session device program memory next current queued half before answer after := by
  have printed : s.unix.printed ++ (half ++ (before ++ after)) ++ [c] = next.pi.printed := by
    rw [session.printed, piEq]
    rfl
  have phaseEq : next.pi.phase = s.pi.phase := by rw [piEq]; rfl
  have performedEq : next.pi.performed = s.pi.performed := by rw [piEq]; rfl
  have opcodesEq : next.pi.opcodes = s.pi.opcodes := by rw [piEq]; rfl
  have deviceEq : next.pi.device = s.pi.device := by rw [piEq]; rfl
  have reading := session.reading
  rw [← phaseEq, ← down] at reading
  have opcodes := session.opcodes
  rw [← unixEq, ← opcodesEq] at opcodes
  have performed := session.performed
  rw [← performedEq, ← deviceEq] at performed
  have asked := session.asked
  rw [← unixEq] at asked printed
  have link := session.link
  rw [← unixEq, ← phaseEq, ← performedEq] at link
  rcases link.print [c] with ⟨rfl, rfl, link⟩ | link
  · refine ⟨before ++ [c], [], reading, opcodes, ?_, ?_, performed, asked, link⟩
    · rw [up, session.up, printChars_append]
      simp only [printChars_nil, List.append_nil, List.append_assoc]
    · rw [← printed]
      simp only [List.append_nil, List.append_assoc]
  · refine ⟨before, after ++ [c], reading, opcodes, ?_, ?_, performed, asked, link⟩
    · rw [up, session.up, printChars_append]
      simp only [List.append_assoc]
    · rw [← printed]
      simp only [List.append_assoc]

end Cs140e.FakePi
