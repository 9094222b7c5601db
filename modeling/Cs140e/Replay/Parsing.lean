import Cs140e.Bootloader.Drain
import Cs140e.Replay.Messages

/-!
# What parse_trace makes of any log

The entries that are unread settle how `parse_trace` ends.  Either they are
garbage and messages to the end of the log, or they end inside of a word and
`read_ent_op` runs dry, or an error is reported.
-/

namespace Cs140e.Replay.PrettyPrint

open Cs140e.Library
open Cs140e.Library.LittleEndian
open Cs140e.Bootloader

/-! ## Messages -/

/-- To the end of the log the entries are those of these messages. -/
inductive Spells (complete : Bool) : UInt32 → List LogEnt → List Message → Prop where
  | done (known : UInt32) (whole : complete = true) : Spells complete known [] []
  | more {known after : UInt32} {message : Message} {messages : List Message}
      {ents : List LogEnt} (follows : Follows complete ents known message after) (op : UInt8)
      (rest : Spells complete after ents messages) :
      Spells complete known
        (sent op (bytesOf message.op) ++ (sent message.sender message.body ++ ents))
        (message :: messages)

/-- Behind some messages the entries end inside of a word, or a body starves. -/
inductive Derails (complete : Bool) : UInt32 → List LogEnt → Prop where
  | word {known : UInt32} {ents : List LogEnt} (whole : complete = true) (op : UInt8)
      (cut : Cut op ents) : Derails complete known ents
  | body {known msgOp : UInt32} {ents : List LogEnt} (op : UInt8)
      (starves : BodyStarves complete known msgOp ents) :
      Derails complete known (sent op (bytesOf msgOp) ++ ents)
  | more {known after : UInt32} {message : Message} {ents : List LogEnt}
      (follows : Follows complete ents known message after) (op : UInt8)
      (rest : Derails complete after ents) :
      Derails complete known
        (sent op (bytesOf message.op) ++ (sent message.sender message.body ++ ents))

section

variable {content : List UInt8} {complete : Bool} {l : LogT} {ents : List LogEnt}

theorem not_derails_nil (known : UInt32) : ¬ Derails complete known [] := by
  intro derails
  generalize same : ([] : List LogEnt) = ents at derails
  cases derails with
  | word _ op cut => exact not_cut_nil op (same ▸ cut)
  | body op => exact sent_word_ne_nil op _ _ same.symm
  | more _ op => exact sent_word_ne_nil op _ _ same.symm

theorem Spells.of_nil {known : UInt32} {messages : List Message}
    (spells : Spells complete known [] messages) : messages = [] := by
  generalize same : ([] : List LogEnt) = ents at spells
  cases spells with
  | done => rfl
  | more _ op => exact absurd same.symm (sent_word_ne_nil op _ _)

/-- Only a log that is read to its end spells messages. -/
theorem Spells.whole {known : UInt32} {messages : List Message}
    (spells : Spells complete known ents messages) : complete = true := by
  induction spells with
  | done _ whole => exact whole
  | more _ _ _ ih => exact ih

theorem mem_of_message (message : Message) :
    message.op ∈ [bootStart, getProgInfo, putProgInfo, getCode, putCode, bootSuccess, bootError,
      printString, badCodeAddr, badCodeCksum] := by
  cases message with
  | _ => simp only [Message.op]; decide

theorem msgAt_done (first later : List Msg) (mi : Msg) (l : LogT) :
    msgAt (first ++ mi :: later) first.length l = .ok mi l := by
  rw [msgAt, List.getElem?_append_right (Nat.le_refl _), Nat.sub_self]
  rfl

theorem msgAt_reading {first later : List Msg} {mi : Msg}
    (here : Unread content complete l ents) :
    Reading (Unread content complete) (fun value left => value = mi ∧ left = ents) False
      (msgAt (first ++ mi :: later) first.length l) := by
  rw [msgAt_done]
  exact Reading.pure here mi

/-- Without another entry the second loop ends, or a broken line is reported. -/
theorem msgLoop_nil_reading (fuel : Nat) (known : UInt32) (m : List Msg) (i : Nat)
    (here : Unread content complete l []) :
    Reading (Unread content complete)
      (fun result left => left = [] ∧ complete = true ∧ result = (m, i)) False
      (msgLoop (fuel + 1) i known m l) := by
  cases complete with
  | true =>
      rw [msgLoop, Prog.bind_of_ok (logRead32_end here)]
      refine (Reading.pure here (m, i)).of_iff (fun result left => ?_) Iff.rfl
      constructor
      · rintro ⟨rfl, rfl⟩
        exact ⟨rfl, rfl, rfl⟩
      · rintro ⟨rfl, _, rfl⟩
        exact ⟨rfl, rfl⟩
  | false =>
      obtain ⟨message, after, stopped⟩ := (logRead32_reading here (by simp)).reports
        (fun result left ⟨word, _, op, split⟩ => sent_word_ne_nil op word left split.symm)
        (fun both => Bool.false_ne_true both.1)
      rw [msgLoop, Prog.bind_of_error stopped]
      exact .reported (fun _ _ both => Bool.false_ne_true both.2.1) not_false

/-- The second loop of `parse_trace` reads messages to the end of the log. -/
theorem msgLoop_reading {fuel : Nat} (enough : ents.length < fuel) (known : UInt32)
    (first : List Msg) {later : List Msg} (room : ents.length ≤ later.length)
    (here : Unread content complete l ents) :
    Reading (Unread content complete)
      (fun result left => left = [] ∧ ∃ messages, Spells complete known ents messages ∧
        result = (first ++ (List.zipWith Message.stored later messages ++
          later.drop messages.length), first.length + messages.length))
      (Derails complete known ents) (msgLoop fuel first.length known (first ++ later) l) := by
  induction fuel generalizing first later known l ents with
  | zero => exact absurd enough (Nat.not_lt_zero _)
  | succ fuel ih =>
      cases ents with
      | nil =>
          refine (msgLoop_nil_reading fuel known _ _ here).of_iff (fun result left => ?_)
            ⟨False.elim, not_derails_nil known⟩
          constructor
          · rintro ⟨rfl, whole, rfl⟩
            exact ⟨rfl, [], .done known whole, by simp⟩
          · rintro ⟨rfl, messages, spells, rfl⟩
            cases spells.of_nil
            exact ⟨rfl, spells.whole, by simp⟩
      | cons ent ents =>
          obtain ⟨mi, later, rfl⟩ := List.exists_cons_of_length_pos
            (Nat.lt_of_lt_of_le (Nat.succ_pos _) room)
          have more : ¬ (ent :: ents = [] ∧ complete = true) := fun both =>
            List.cons_ne_nil _ _ both.1
          have next : ∀ (mi' : Msg) (after : UInt32) {l : LogT} {left : List LogEnt},
              Unread content complete l left → left.length < (ent :: ents).length →
              Reading (Unread content complete)
                (fun result rest => rest = [] ∧ ∃ messages, Spells complete after left messages ∧
                  result = (first ++ [mi'] ++ (List.zipWith Message.stored later messages ++
                    later.drop messages.length), first.length + 1 + messages.length))
                (Derails complete after left)
                (msgLoop fuel (first.length + 1) after ((first ++ mi :: later).set first.length mi')
                  l) := by
            intro mi' after l left there shorter
            rw [List.length_cons] at enough shorter
            rw [List.length_cons, List.length_cons] at room
            have fits : left.length ≤ later.length := by omega
            have loop := ih (by omega) after (first ++ [mi']) fits there
            rw [set_done]
            rwa [List.length_append, List.length_singleton] at loop
          rw [msgLoop]
          refine .of_iff (.bind_some (logRead32_reading here more) fun msgOp _ _ word there =>
            .bind (opCheck_reading msgOp there) fun _ _ _ valid there =>
            .bind (msgAt_reading there) fun mi _ _ found there =>
            .bind (parseBody_reading msgOp known mi there) fun parsed left _ body there =>
            next parsed.1 parsed.2 there (by
              obtain ⟨op, split⟩ := word
              obtain ⟨message, _, _, _, _, splitBody⟩ := body
              rw [split, ← valid.2, ← found.2, splitBody, List.length_append, List.length_append,
                length_sent, length_bytesOf]
              omega)) (fun result left => ?_) ?_
          · constructor
            · rintro ⟨_, _, ⟨op, split⟩, _, _, ⟨_, rfl⟩, _, _, ⟨rfl, rfl⟩, _, _,
                ⟨message, after, rfl, follows, rfl, rfl⟩, rfl, messages, spells, rfl⟩
              refine ⟨rfl, message :: messages, split ▸ .more follows op spells, ?_⟩
              simp [Nat.add_assoc, Nat.add_comm 1]
            · rintro ⟨rfl, messages, spells, rfl⟩
              generalize same : ent :: ents = all at spells
              cases spells with
              | done => cases same
              | @more _ after message messages ents follows op rest =>
                  refine ⟨message.op, _, ⟨op, rfl⟩, (), _, ⟨mem_of_message message, rfl⟩, mi, _,
                    ⟨rfl, rfl⟩, (message.stored mi, after), _,
                    ⟨message, after, rfl, follows, rfl, rfl⟩, rfl, messages, rest, ?_⟩
                  simp [Nat.add_assoc, Nat.add_comm 1]
          · constructor
            · rintro (⟨whole, op, cut⟩ | ⟨_, _, ⟨op, split⟩, never | ⟨_, _, ⟨_, rfl⟩, never |
                ⟨_, _, ⟨rfl, rfl⟩, starves | ⟨_, _, ⟨message, after, rfl, follows, rfl, rfl⟩,
                  rest⟩⟩⟩⟩)
              · exact .word whole op cut
              · exact never.elim
              · exact never.elim
              · exact split ▸ .body op starves
              · exact split ▸ .more follows op rest
            · intro derails
              generalize same : ent :: ents = all at derails
              cases derails with
              | word whole op cut => exact .inl ⟨whole, op, cut⟩
              | @body _ msgOp ents op starves =>
                  have valid : msgOp ∈ [bootStart, getProgInfo, putProgInfo, getCode, putCode,
                      bootSuccess, bootError, printString, badCodeAddr, badCodeCksum] := by
                    cases starves with
                    | _ => decide
                  exact .inr ⟨msgOp, _, ⟨op, rfl⟩, .inr ⟨(), _, ⟨valid, rfl⟩, .inr ⟨mi, _,
                    ⟨rfl, rfl⟩, .inl starves⟩⟩⟩
              | @more _ after message ents follows op rest =>
                  exact .inr ⟨message.op, _, ⟨op, rfl⟩, .inr ⟨(), _,
                    ⟨mem_of_message message, rfl⟩, .inr ⟨mi, _, ⟨rfl, rfl⟩, .inr
                    ⟨(message.stored mi, after), _, ⟨message, after, rfl, follows, rfl, rfl⟩,
                      rest⟩⟩⟩⟩

end

/-! ## Garbage -/

/-- What is stored for a byte of garbage. -/
def Msg.ofGarbage (b : UInt8) : Msg := ⟨badDataOp, piOutput, .badData b⟩

/-- The pi sends a `GET_PROG_INFO` next. -/
def Starts (ents : List LogEnt) : Prop :=
  ∃ rest, ents = sent piOutput (bytesOf getProgInfo) ++ rest

/-- The pi sends garbage up to its first `GET_PROG_INFO`. -/
def Begins (garbage : List UInt8) (ents left : List LogEnt) : Prop :=
  FreeOf getProgInfo garbage ∧ ents = sent piOutput garbage ++ left ∧ Starts left

/-- The pi sends all of the log, and no `GET_PROG_INFO`. -/
def NeverBegins (ents : List LogEnt) : Prop :=
  ∃ bytes, bytes ≠ [] ∧ ents = sent piOutput bytes ∧ ¬ bytesOf getProgInfo <:+: bytes

theorem prefix_of_sent {sender : UInt8} {first second : List UInt8} {left rest : List LogEnt}
    (same : sent sender first ++ left = sent sender second ++ rest)
    (shorter : first.length ≤ second.length) : first <+: second := by
  have inside : sent sender first <+: sent sender second := by
    refine List.prefix_of_prefix_length_le ⟨left, same⟩ (List.prefix_append _ _) ?_
    rw [length_sent, length_sent]
    exact shorter
  obtain ⟨more, split⟩ := inside
  have long := congrArg (List.map LogEnt.v) split
  have values : ∀ bytes, (sent sender bytes).map LogEnt.v = bytes := fun bytes => by
    rw [sent, List.map_map]
    exact List.map_id bytes
  rw [List.map_append, values, values] at long
  exact ⟨_, long⟩

theorem freeOf_cons {op : UInt32} {b : UInt8} {garbage : List UInt8} :
    FreeOf op (b :: garbage) ↔
      ¬ bytesOf op <+: b :: garbage ++ bytesOf getProgInfo ∧ FreeOf op garbage := by
  constructor
  · exact fun free => ⟨free 0 (Nat.succ_pos _), free.drop 1⟩
  · rintro ⟨here, later⟩ offset inside
    cases offset with
    | zero => exact here
    | succ offset => exact later offset (Nat.lt_of_succ_lt_succ inside)

section

variable {content : List UInt8} {complete : Bool} {l : LogT} {ents : List LogEnt}

/-- Four bytes are a word. -/
theorem exists_sent_word {sender : UInt8} {bytes : List UInt8} (long : 4 ≤ bytes.length)
    (rest : List LogEnt) :
    ∃ word left, sent sender bytes ++ rest = sent sender (bytesOf word) ++ left := by
  obtain ⟨word, split⟩ := exists_word bytes long
  refine ⟨word, sent sender (bytes.drop 4) ++ rest, ?_⟩
  rw [← List.append_assoc, ← sent_append, ← split]

theorem sent_word_injective {sender : UInt8} {first second : UInt32} {left rest : List LogEnt}
    (same : sent sender (bytesOf first) ++ left = sent sender (bytesOf second) ++ rest) :
    first = second := by
  have inside := (prefix_of_sent same (Nat.le_refl 4)).eq_of_length rfl
  rw [← wordOf_bytesOf first, inside, wordOf_bytesOf]

theorem Starts.of_prefix {bytes : List UInt8} (inside : bytesOf getProgInfo <+: bytes)
    (rest : List LogEnt) : Starts (sent piOutput bytes ++ rest) := by
  obtain ⟨more, rfl⟩ := inside
  exact ⟨sent piOutput more ++ rest, by rw [sent_append, List.append_assoc]⟩

theorem begins_nil {garbage : List UInt8} {left : List LogEnt} (starts : Starts ents) :
    Begins garbage ents left ↔ garbage = [] ∧ left = ents := by
  constructor
  · rintro ⟨free, rfl, rest, rfl⟩
    cases garbage with
    | nil => exact ⟨rfl, rfl⟩
    | cons b garbage =>
        obtain ⟨after, split⟩ := starts
        rw [← List.append_assoc, ← sent_append] at split
        have short : (bytesOf getProgInfo).length ≤
            (b :: garbage ++ bytesOf getProgInfo).length := by
          rw [List.length_append]
          exact Nat.le_add_left _ _
        exact absurd (prefix_of_sent split.symm short) (freeOf_cons.mp free).1
  · rintro ⟨rfl, rfl⟩
    exact ⟨fun offset none => absurd none (Nat.not_lt_zero offset), rfl, starts⟩

theorem Starts.not_neverBegins (starts : Starts ents) : ¬ NeverBegins ents := by
  rintro ⟨bytes, _, rfl, none⟩
  obtain ⟨rest, split⟩ := starts
  have long := congrArg List.length split
  rw [List.length_append, length_sent, length_sent] at long
  have aligned : sent piOutput (bytesOf getProgInfo) ++ rest = sent piOutput bytes ++ [] := by
    rw [List.append_nil, split]
  exact none (prefix_of_sent aligned (by omega)).isInfix

theorem begins_cons {b : UInt8} (other : ¬ Starts (⟨piOutput, b⟩ :: ents)) {garbage : List UInt8}
    {left : List LogEnt} :
    Begins garbage (⟨piOutput, b⟩ :: ents) left ↔
      ∃ more, garbage = b :: more ∧ Begins more ents left := by
  constructor
  · rintro ⟨free, split, starts⟩
    cases garbage with
    | nil =>
        cases split
        exact absurd starts other
    | cons c more =>
        cases split
        exact ⟨more, rfl, (freeOf_cons.mp free).2, rfl, starts⟩
  · rintro ⟨more, rfl, free, rfl, rest, rfl⟩
    refine ⟨freeOf_cons.mpr ⟨fun inside => other ?_, free⟩, rfl, rest, rfl⟩
    have starts := Starts.of_prefix inside rest
    rwa [sent_append, List.append_assoc] at starts

theorem neverBegins_cons {b : UInt8} (other : ¬ Starts (⟨piOutput, b⟩ :: ents))
    (more : ents ≠ []) : NeverBegins (⟨piOutput, b⟩ :: ents) ↔ NeverBegins ents := by
  constructor
  · rintro ⟨bytes, some, split, none⟩
    obtain ⟨c, bytes, rfl⟩ := List.exists_cons_of_ne_nil some
    cases split
    refine ⟨bytes, fun nil => more (by rw [nil]; rfl), rfl, fun inside => none ?_⟩
    exact List.infix_cons_iff.mpr (.inr inside)
  · rintro ⟨bytes, _, rfl, none⟩
    refine ⟨b :: bytes, List.cons_ne_nil _ _, rfl, fun inside => ?_⟩
    rcases List.infix_cons_iff.mp inside with first | later
    · have starts := Starts.of_prefix first []
      rw [List.append_nil] at starts
      exact other starts
    · exact none later

theorem Begins.exists_word {garbage : List UInt8} {left : List LogEnt}
    (begins : Begins garbage ents left) :
    ∃ word rest, ents = sent piOutput (bytesOf word) ++ rest := by
  obtain ⟨_, rfl, rest, rfl⟩ := begins
  rw [← List.append_assoc, ← sent_append]
  refine exists_sent_word ?_ rest
  rw [List.length_append]
  exact Nat.le_add_left 4 _

theorem NeverBegins.cut_or_exists_word (never : NeverBegins ents) :
    Cut piOutput ents ∨ ∃ word rest, ents = sent piOutput (bytesOf word) ++ rest := by
  obtain ⟨bytes, some, rfl, _⟩ := never
  rcases Nat.lt_or_ge bytes.length 4 with few | long
  · exact .inl ⟨bytes, List.length_pos_iff.mpr some, few, rfl⟩
  · obtain ⟨word, rest, split⟩ := exists_sent_word long []
    exact .inr ⟨word, rest, by rw [← split, List.append_nil]⟩

theorem Cut.not_word {sender other : UInt8} {word : UInt32} {rest : List LogEnt}
    (cut : Cut sender ents) : ents ≠ sent other (bytesOf word) ++ rest := by
  obtain ⟨bytes, _, few, rfl⟩ := cut
  intro same
  have lengths := congrArg List.length same
  rw [List.length_append, length_sent, length_sent, length_bytesOf] at lengths
  omega

theorem Cut.neverBegins (cut : Cut piOutput ents) : NeverBegins ents := by
  obtain ⟨bytes, begun, few, rfl⟩ := cut
  refine ⟨bytes, List.length_pos_iff.mp begun, rfl, fun inside => ?_⟩
  have short := inside.length_le
  rw [length_bytesOf] at short
  omega

/-- The first loop of `parse_trace` skips garbage and stops in front of the pi's
`GET_PROG_INFO`. -/
theorem badDataLoop_reading {fuel : Nat} (enough : ents.length < fuel) (first : List Msg)
    {later : List Msg} (room : ents.length ≤ later.length)
    (here : Unread content complete l ents) :
    Reading (Unread content complete)
      (fun m left => ∃ garbage, Begins garbage ents left ∧
        m = first ++ (garbage.map Msg.ofGarbage ++ later.drop garbage.length))
      (complete = true ∧ NeverBegins ents)
      (badDataLoop fuel first.length (first ++ later) l) := by
  induction fuel generalizing first later l ents with
  | zero => exact absurd enough (Nat.not_lt_zero _)
  | succ fuel ih =>
      have peek := logPeek32_reading piOutput here
      rw [badDataLoop]
      generalize ran : logPeek32 piOutput l = outcome at peek
      cases peek with
      | starved yes _ =>
          rw [Prog.bind_of_error ran]
          refine .starved ⟨yes.1, yes.2.neverBegins⟩ fun m left ⟨garbage, begins, _⟩ => ?_
          obtain ⟨word, rest, split⟩ := begins.exists_word
          exact yes.2.not_word split
      | reported none wet =>
          rw [Prog.bind_of_error ran]
          refine .reported (fun m left ⟨garbage, begins, _⟩ => ?_) fun ⟨whole, never⟩ => ?_
          · obtain ⟨word, rest, split⟩ := begins.exists_word
            exact none word ents ⟨rfl, rest, split⟩
          · rcases never.cut_or_exists_word with cut | ⟨word, rest, split⟩
            · exact wet ⟨whole, cut⟩
            · exact none word ents ⟨rfl, rest, split⟩
      | @returned word after _ there yes _ _ =>
          obtain ⟨same, rest, split⟩ := yes
          rw [same] at there
          rw [Prog.bind_of_ok ran]
          by_cases found : word = getProgInfo
          · subst found
            have starts : Starts ents := ⟨rest, split⟩
            rw [if_neg (not_not_intro rfl)]
            refine (Reading.pure there (first ++ later)).of_iff (fun m left => ?_)
              ⟨False.elim, fun both => starts.not_neverBegins both.2⟩
            simp only [begins_nil starts]
            constructor
            · rintro ⟨rfl, rfl⟩
              exact ⟨[], ⟨rfl, rfl⟩, rfl⟩
            · rintro ⟨_, ⟨rfl, rfl⟩, rfl⟩
              exact ⟨rfl, rfl⟩
          · have other : ¬ Starts ents := fun ⟨rest', split'⟩ =>
              found (sent_word_injective (split.symm.trans split'))
            obtain ⟨b, tail, rfl, some⟩ : ∃ b tail, ents = ⟨piOutput, b⟩ :: tail ∧ tail ≠ [] :=
              ⟨_, _, split, List.cons_ne_nil _ _⟩
            obtain ⟨mi, later, rfl⟩ := List.exists_cons_of_length_pos
              (Nat.lt_of_lt_of_le (Nat.succ_pos _) room)
            rw [List.length_cons] at enough
            rw [List.length_cons, List.length_cons] at room
            obtain ⟨middle, read, there⟩ := (readEntOp_reading piOutput there).takes rfl
            have fits : tail.length ≤ later.length := by omega
            have loop := ih (by omega) (first ++ [Msg.ofGarbage b]) fits there
            rw [List.length_append, List.length_singleton, ← set_done first later mi] at loop
            rw [if_pos found, Prog.bind_of_ok (msgAt_done first later mi after),
              Prog.bind_of_ok read]
            refine loop.of_iff (fun m left => ?_) ?_
            · simp only [begins_cons other]
              constructor
              · rintro ⟨garbage, begins, rfl⟩
                exact ⟨b :: garbage, ⟨garbage, rfl, begins⟩, by simp⟩
              · rintro ⟨_, ⟨garbage, rfl, begins⟩, rfl⟩
                exact ⟨garbage, begins, by simp⟩
            · rw [neverBegins_cons other some]

/-- What `parse_trace` makes of the unread entries: the messages behind the garbage. -/
def Decodes (complete : Bool) (ents : List LogEnt) (garbage : List UInt8)
    (messages : List Message) : Prop :=
  ∃ left, Begins garbage ents left ∧ Spells complete 0 left messages

/-- Where `parse_trace` goes on without an entry. -/
def Misreads (complete : Bool) (ents : List LogEnt) : Prop :=
  (complete = true ∧ NeverBegins ents) ∨
    ∃ garbage left, Begins garbage ents left ∧ Derails complete 0 left

/-- The table behind the first loop. -/
def garbageTable (size : Nat) (garbage : List UInt8) : List Msg :=
  garbage.map Msg.ofGarbage ++ (List.replicate size Msg.zeroed).drop garbage.length

theorem length_garbageTable {size : Nat} {garbage : List UInt8} (fits : garbage.length ≤ size) :
    (garbageTable size garbage).length = size := by
  rw [garbageTable, List.length_append, List.length_map, List.length_drop, List.length_replicate]
  omega

theorem Begins.length_le {garbage : List UInt8} {left : List LogEnt}
    (begins : Begins garbage ents left) : garbage.length + left.length = ents.length := by
  obtain ⟨_, rfl, _⟩ := begins
  rw [List.length_append, length_sent]

theorem parseTrace_reading (here : Unread content complete l ents) :
    Reading (Unread content complete)
      (fun result left => left = [] ∧ ∃ garbage messages, Decodes complete ents garbage messages ∧
        result = (List.zipWith Message.stored (garbageTable l.nbytes.toNat garbage) messages ++
          (garbageTable l.nbytes.toNat garbage).drop messages.length, messages.length))
      (Misreads complete ents) (parseTrace l) := by
  have short := here.length_le
  have table : ents.length ≤ (List.replicate l.nbytes.toNat Msg.zeroed).length := by
    rw [List.length_replicate]
    omega
  have enough : ents.length < l.nbytes.toNat + 1 := by omega
  have skips := badDataLoop_reading enough [] table here
  rw [parseTrace, Prog.bind_of_ok (Prog.get_apply l), Prog.bind_of_ok (Prog.get_apply l)]
  refine .of_iff (.bind skips fun m left after some there => msgLoop_reading ?_ 0 [] ?_ there)
    (fun result left => ?_) ?_
  · obtain ⟨garbage, begins, _⟩ := some
    have fits := begins.length_le
    omega
  · obtain ⟨garbage, begins, rfl⟩ := some
    have fits := begins.length_le
    rw [List.nil_append]
    change left.length ≤ (garbageTable l.nbytes.toNat garbage).length
    rw [length_garbageTable (by omega)]
    omega
  · constructor
    · rintro ⟨_, middle, ⟨garbage, begins, rfl⟩, rfl, messages, spells, rfl⟩
      refine ⟨rfl, garbage, messages, ⟨middle, begins, spells⟩, ?_⟩
      rw [List.length_nil, Nat.zero_add]
      rfl
    · rintro ⟨rfl, garbage, messages, ⟨middle, begins, spells⟩, rfl⟩
      refine ⟨_, middle, ⟨garbage, begins, rfl⟩, rfl, messages, spells, ?_⟩
      rw [List.length_nil, Nat.zero_add]
      rfl
  · constructor
    · rintro (never | ⟨_, middle, ⟨garbage, begins, rfl⟩, derails⟩)
      · exact .inl never
      · exact .inr ⟨garbage, middle, begins, derails⟩
    · rintro (never | ⟨garbage, middle, begins, derails⟩)
      · exact .inl never
      · exact .inr ⟨_, middle, ⟨garbage, begins, rfl⟩, derails⟩

theorem Spells.length_le {known : UInt32} {messages : List Message}
    (spells : Spells complete known ents messages) : messages.length ≤ ents.length := by
  induction spells with
  | done => exact Nat.le_refl 0
  | more follows op rest ih =>
      rw [List.length_cons, List.length_append, List.length_append, length_sent, length_bytesOf]
      omega

theorem shows_zipWith {table : List Msg} {messages : List Message}
    (room : messages.length ≤ table.length) :
    List.Forall₂ Shows (List.zipWith Message.stored table messages) messages := by
  induction messages generalizing table with
  | nil =>
      rw [List.zipWith_nil_right]
      exact .nil
  | cons message messages ih =>
      obtain ⟨mi, table, rfl⟩ := List.exists_cons_of_length_pos
        (Nat.lt_of_lt_of_le (Nat.succ_pos _) room)
      exact .cons (message.shows_stored mi) (ih (Nat.le_of_succ_le_succ room))

/-- The table shows the messages and their number is returned. -/
def Inverts (messages : List Message) (outcome : Outcome LogT (List Msg × Nat)) : Prop :=
  ∃ m after, outcome = .ok (m, messages.length) after ∧
    List.Forall₂ Shows (m.take messages.length) messages

theorem parseTrace_decodes (here : Unread content complete l ents) {garbage : List UInt8}
    {messages : List Message} (decodes : Decodes complete ents garbage messages) :
    Inverts messages (parseTrace l) := by
  have short := here.length_le
  obtain ⟨left, begins, spells⟩ := decodes
  have fits := begins.length_le
  have few := spells.length_le
  have room : messages.length ≤ (garbageTable l.nbytes.toNat garbage).length := by
    rw [length_garbageTable (by omega)]
    omega
  obtain ⟨after, ran, _⟩ := (parseTrace_reading here).takes
    ⟨rfl, garbage, messages, ⟨left, begins, spells⟩, rfl⟩
  refine ⟨_, after, ran, ?_⟩
  have shows := shows_zipWith room
  rw [← shows.length_eq, List.take_left]
  exact shows

end

end Cs140e.Replay.PrettyPrint
