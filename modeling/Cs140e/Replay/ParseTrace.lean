import Cs140e.Replay.Parsing
import Cs140e.Replay.RoundTrip

/-!
# The trace of a boot session is parsed

A session is a list of messages; each is logged as the bytes of its words and
of its body, all by one sender.  `parse_trace` skips the garbage in front and
rebuilds the messages.
-/

namespace Cs140e.Replay.PrettyPrint

open Cs140e.Library
open Cs140e.Library.LittleEndian
open Cs140e.Bootloader

/-- The number of code bytes that `parse_trace` knows. -/
def known (nbytes : UInt32) (announced : Bool) : UInt32 := if announced then nbytes else 0

/-- What may come in a session `parse_trace` reads. -/
theorem Allowed.follows {nbytes : UInt32} (nonzero : nbytes ≠ 0) {announced after : Bool}
    {message : Message} (allowed : Allowed nbytes announced message after) (left : List LogEnt) :
    Follows true left (known nbytes announced) message (known nbytes after) := by
  cases allowed with
  | getProgInfo => exact .getProgInfo
  | bootError => exact .bootError
  | badCodeAddr => exact .badCodeAddr
  | badCodeCksum => exact .badCodeCksum
  | getCode announced crc32 => exact .getCode crc32
  | putCode size => exact .putCode nonzero size
  | putProgInfo announced armbase crc32 =>
      refine .putProgInfo armbase crc32 ?_
      cases announced with
      | true => exact .inr rfl
      | false => exact .inl rfl

/-- What is logged for a session. -/
def sessionEntries (messages : List Message) : List LogEnt := messages.flatMap Message.entries

theorem sessionEntries_cons (message : Message) (messages : List Message) :
    sessionEntries (message :: messages) = sent message.sender (bytesOf message.op) ++
      (sent message.sender message.body ++ sessionEntries messages) := by
  rw [sessionEntries, List.flatMap_cons, Message.entries, List.map_append, List.append_assoc]
  rfl

theorem Session.spells {nbytes : UInt32} (nonzero : nbytes ≠ 0) {announced : Bool}
    {messages : List Message} (session : Session nbytes announced messages) :
    Spells true (known nbytes announced) (sessionEntries messages) messages := by
  induction session with
  | done announced => exact .done _ rfl
  | success announced output =>
      rw [sessionEntries_cons]
      exact .more (.bootSuccess output rfl rfl) _ (.done _ rfl)
  | more allowed session ih =>
      rw [sessionEntries_cons]
      exact .more (allowed.follows nonzero _) _ ih

/-- What is logged for a session behind garbage of the pi. -/
def traceEntries (garbage : List UInt8) (messages : List Message) : List LogEnt :=
  garbage.map (LogEnt.mk piOutput) ++ sessionEntries (.getProgInfo :: messages)

theorem traceEntries_sender {garbage : List UInt8} {messages : List Message} :
    ∀ ent ∈ traceEntries garbage messages, ent.sender = piOutput ∨ ent.sender = unixOutput := by
  intro ent mem
  rcases List.mem_append.mp mem with inGarbage | inSession
  · obtain ⟨b, _, rfl⟩ := List.mem_map.mp inGarbage
    exact .inl rfl
  · obtain ⟨message, _, inMessage⟩ := List.mem_flatMap.mp inSession
    obtain ⟨b, _, rfl⟩ := List.mem_map.mp inMessage
    cases message with
    | putProgInfo | putCode => exact .inr rfl
    | _ => exact .inl rfl

/-- `parse_trace` finds the messages of every session in its log. -/
theorem parse_trace_inverts {nbytes : UInt32} (nonzero : nbytes ≠ 0) {garbage : List UInt8}
    (clean : FreeOf getProgInfo garbage) {messages : List Message}
    (session : Session nbytes false messages) {file : List UInt8}
    (logged : wrLog (traceEntries garbage messages) [] = .ok () file) {log : List UInt8}
    {size : UInt32} (held : file <+: log) (length : size.toNat = file.length) (lineno : UInt32) :
    Inverts (.getProgInfo :: messages) (parseTrace ⟨log, size, 0, lineno⟩) := by
  rw [wrLog_apply _ traceEntries_sender, List.nil_append] at logged
  cases logged
  have unread : Unread _ true ⟨log, size, 0, lineno⟩ (traceEntries garbage messages) :=
    ⟨_, At.start length held lineno, lines_logText _⟩
  have starts : Starts (sessionEntries (.getProgInfo :: messages)) := by
    rw [sessionEntries_cons]
    exact ⟨sessionEntries messages, rfl⟩
  have spells : Spells true 0 (sessionEntries (.getProgInfo :: messages))
      (.getProgInfo :: messages) := Session.spells nonzero (.more (.getProgInfo false) session)
  exact parseTrace_decodes unread ⟨_, ⟨clean, rfl, starts⟩, spells⟩

theorem parse_trace_inverts_of_boot :
    Inverts [.getProgInfo, .putProgInfo 0x8000 2 7, .getCode 7, .putCode [1, 34],
        .bootSuccess [72, 105]]
      (parseTrace ⟨logText (traceEntries [0x22, 0x05] [.putProgInfo 0x8000 2 7, .getCode 7,
        .putCode [1, 34], .bootSuccess [72, 105]]), 294, 0, 1⟩) := by
  have session : Session 2 false [.putProgInfo 0x8000 2 7, .getCode 7, .putCode [1, 34],
      .bootSuccess [72, 105]] :=
    .more (.putProgInfo false 0x8000 7) (.more (.getCode true 7) (.more (.putCode rfl)
      (.success true [72, 105])))
  have clean : FreeOf getProgInfo [0x22, 0x05] := by decide
  have length : (294 : UInt32).toNat = (logText (traceEntries [0x22, 0x05]
      [.putProgInfo 0x8000 2 7, .getCode 7, .putCode [1, 34], .bootSuccess [72, 105]])).length := by
    rw [length_logText]
    rfl
  exact parse_trace_inverts (by decide) clean session (wrLog_apply _ traceEntries_sender [])
    (List.prefix_refl _) length 1

end Cs140e.Replay.PrettyPrint
