import Cs140e.Replay.Words

/-!
# The messages of a boot session

What is logged for each message, and what the `switch` of `parse_trace` reads
behind the `op` of a message.
-/

namespace Cs140e.Replay.PrettyPrint

open Cs140e.Library
open Cs140e.Library.LittleEndian
open Cs140e.Bootloader

/-! ## Sessions -/

inductive Message where
  | getProgInfo
  | putProgInfo (armbase nbytes crc32 : UInt32)
  | getCode (crc32 : UInt32)
  | putCode (code : List UInt8)
  | bootError
  | badCodeAddr
  | badCodeCksum
  | bootSuccess (output : List UInt8)
  deriving DecidableEq, Repr

namespace Message

def op : Message → UInt32
  | getProgInfo => Bootloader.getProgInfo
  | putProgInfo _ _ _ => Bootloader.putProgInfo
  | getCode _ => Bootloader.getCode
  | putCode _ => Bootloader.putCode
  | bootError => Bootloader.bootError
  | badCodeAddr => Bootloader.badCodeAddr
  | badCodeCksum => Bootloader.badCodeCksum
  | bootSuccess _ => Bootloader.bootSuccess

def sender : Message → UInt8
  | putProgInfo _ _ _ | putCode _ => unixOutput
  | _ => piOutput

/-- The bytes behind the `op`. -/
def body : Message → List UInt8
  | putProgInfo armbase nbytes crc32 => bytesOf armbase ++ bytesOf nbytes ++ bytesOf crc32
  | getCode crc32 => bytesOf crc32
  | putCode code => code
  | bootSuccess output => output
  | _ => []

/-- The member of the union that holds the message; buffers have a 0 behind
their bytes. -/
def heldBy : Message → MsgTypes → Prop
  | putProgInfo armbase nbytes crc32, u => u = .progInfo armbase nbytes crc32
  | getCode crc32, u => u = .getCode crc32
  | putCode code, u => u = .putCode (code ++ [0]) (UInt32.ofNat code.length)
  | bootSuccess output, u => u = .bootSuccess (output ++ [0]) (UInt32.ofNat output.length)
  | _, _ => True

/-- What is logged for a message. -/
def entries (message : Message) : List LogEnt :=
  (bytesOf message.op ++ message.body).map (LogEnt.mk message.sender)

end Message

/-- A message other than the last may come; a `PUT_CODE` only once the number of
code bytes was `announced`.  The last argument tells whether it then is. -/
inductive Allowed (nbytes : UInt32) : Bool → Message → Bool → Prop where
  | getProgInfo (announced : Bool) : Allowed nbytes announced .getProgInfo announced
  | putProgInfo (announced : Bool) (armbase crc32 : UInt32) :
      Allowed nbytes announced (.putProgInfo armbase nbytes crc32) true
  | getCode (announced : Bool) (crc32 : UInt32) :
      Allowed nbytes announced (.getCode crc32) announced
  | putCode {code : List UInt8} (size : code.length = nbytes.toNat) :
      Allowed nbytes true (.putCode code) true
  | bootError (announced : Bool) : Allowed nbytes announced .bootError announced
  | badCodeAddr (announced : Bool) : Allowed nbytes announced .badCodeAddr announced
  | badCodeCksum (announced : Bool) : Allowed nbytes announced .badCodeCksum announced

/-- What may still come in a session. -/
inductive Session (nbytes : UInt32) : Bool → List Message → Prop where
  | done (announced : Bool) : Session nbytes announced []
  | success (announced : Bool) (output : List UInt8) :
      Session nbytes announced [.bootSuccess output]
  | more {announced after : Bool} {message : Message} {messages : List Message}
      (allowed : Allowed nbytes announced message after) (rest : Session nbytes after messages) :
      Session nbytes announced (message :: messages)

/-- An entry of the table shows a message. -/
structure Shows (mi : Msg) (message : Message) : Prop where
  op_eq : mi.op = message.op
  sender_eq : mi.sender = message.sender
  held : message.heldBy mi.u

/-! ## Bodies -/

/-- What the entry of the table becomes when the message is parsed. -/
def Message.stored (mi : Msg) (message : Message) : Msg where
  op := message.op
  sender := message.sender
  u := match message with
    | .putProgInfo armbase nbytes crc32 => .progInfo armbase nbytes crc32
    | .getCode crc32 => .getCode crc32
    | .putCode code => .putCode (code ++ [0]) (UInt32.ofNat code.length)
    | .bootSuccess output => .bootSuccess (output ++ [0]) (UInt32.ofNat output.length)
    | _ => mi.u

theorem Message.shows_stored (mi : Msg) (message : Message) : Shows (message.stored mi) message :=
  ⟨rfl, rfl, by cases message <;> trivial⟩

/-- The message may be read when this number of code bytes is known, 0 if none was
announced, and when these entries are left behind it. -/
inductive Follows (complete : Bool) (left : List LogEnt) (known : UInt32) :
    Message → UInt32 → Prop where
  | getProgInfo : Follows complete left known .getProgInfo known
  | putProgInfo {nbytes : UInt32} (armbase crc32 : UInt32) (agrees : known = 0 ∨ known = nbytes) :
      Follows complete left known (.putProgInfo armbase nbytes crc32) nbytes
  | getCode (crc32 : UInt32) : Follows complete left known (.getCode crc32) known
  | putCode {code : List UInt8} (announced : known ≠ 0) (size : code.length = known.toNat) :
      Follows complete left known (.putCode code) known
  | bootError : Follows complete left known .bootError known
  | badCodeAddr : Follows complete left known .badCodeAddr known
  | badCodeCksum : Follows complete left known .badCodeCksum known
  | bootSuccess (output : List UInt8) (whole : complete = true) (last : left = []) :
      Follows complete left known (.bootSuccess output) known

/-- The entries behind the `op` end inside of a word of the body, or they are
stored behind a buffer whose size does not fit into 32 bits. -/
inductive BodyStarves (complete : Bool) (known : UInt32) : UInt32 → List LogEnt → Prop where
  | crc {ents : List LogEnt} (whole : complete = true) (cut : Cut piOutput ents) :
      BodyStarves complete known getCode ents
  | info {ents : List LogEnt} (words : List UInt32) (few : words.length < 3)
      (whole : complete = true) (cut : Cut unixOutput ents) :
      BodyStarves complete known putProgInfo
        (sent unixOutput (words.flatMap bytesOf) ++ ents)
  | code {ents : List LogEnt} (full : known.toNat + 1 = 2 ^ 32) (more : ents ≠ []) :
      BodyStarves complete known putCode ents

namespace Message

theorem op_eq_getCode {message : Message} (same : message.op = Bootloader.getCode) :
    ∃ crc32, message = .getCode crc32 := by
  cases message with
  | getCode crc32 => exact ⟨crc32, rfl⟩
  | _ => simp only [op] at same; exact absurd same (by decide)

theorem op_eq_putProgInfo {message : Message} (same : message.op = Bootloader.putProgInfo) :
    ∃ armbase nbytes crc32, message = .putProgInfo armbase nbytes crc32 := by
  cases message with
  | putProgInfo armbase nbytes crc32 => exact ⟨armbase, nbytes, crc32, rfl⟩
  | _ => simp only [op] at same; exact absurd same (by decide)

theorem op_eq_putCode {message : Message} (same : message.op = Bootloader.putCode) :
    ∃ code, message = .putCode code := by
  cases message with
  | putCode code => exact ⟨code, rfl⟩
  | _ => simp only [op] at same; exact absurd same (by decide)

theorem op_eq_bootSuccess {message : Message} (same : message.op = Bootloader.bootSuccess) :
    ∃ output, message = .bootSuccess output := by
  cases message with
  | bootSuccess output => exact ⟨output, rfl⟩
  | _ => simp only [op] at same; exact absurd same (by decide)

end Message

section

variable {content : List UInt8} {complete : Bool} {l : LogT} {ents : List LogEnt}

theorem parseBody_empty {op : UInt32}
    (empty : op = getProgInfo ∨ op = bootError ∨ op = badCodeAddr ∨ op = badCodeCksum)
    (nbytes : UInt32) (mi : Msg) (l : LogT) :
    parseBody op nbytes mi l = .ok ({ mi with sender := piOutput }, nbytes) l := by
  rw [parseBody, if_pos empty]
  rfl

/-- What one branch of the `switch` may read. -/
def ReadsBody (complete : Bool) (known op : UInt32) (mi : Msg) (ents : List LogEnt)
    (result : Msg × UInt32) (left : List LogEnt) : Prop :=
  ∃ message after, message.op = op ∧ Follows complete left known message after ∧
    result = (message.stored mi, after) ∧ ents = sent message.sender message.body ++ left

theorem parseBody_empty_reading {op : UInt32}
    (empty : op = getProgInfo ∨ op = bootError ∨ op = badCodeAddr ∨ op = badCodeCksum)
    (known : UInt32) (mi : Msg) (here : Unread content complete l ents) :
    Reading (Unread content complete) (ReadsBody complete known op mi ents)
      (BodyStarves complete known op ents) (parseBody op known { mi with op } l) := by
  rw [parseBody_empty empty]
  refine (Reading.pure here _).of_iff (fun result left => ?_) ⟨False.elim, fun starves => ?_⟩
  · constructor
    · rintro ⟨rfl, rfl⟩
      rcases empty with rfl | rfl | rfl | rfl
      · exact ⟨.getProgInfo, known, rfl, .getProgInfo, rfl, rfl⟩
      · exact ⟨.bootError, known, rfl, .bootError, rfl, rfl⟩
      · exact ⟨.badCodeAddr, known, rfl, .badCodeAddr, rfl, rfl⟩
      · exact ⟨.badCodeCksum, known, rfl, .badCodeCksum, rfl, rfl⟩
    · rintro ⟨message, after, rfl, follows, rfl, rfl⟩
      cases follows with
      | putProgInfo => simp only [Message.op] at empty; exact absurd empty (by decide)
      | getCode => simp only [Message.op] at empty; exact absurd empty (by decide)
      | putCode => simp only [Message.op] at empty; exact absurd empty (by decide)
      | bootSuccess => simp only [Message.op] at empty; exact absurd empty (by decide)
      | _ => exact ⟨rfl, rfl⟩
  · cases starves with
    | _ => exact absurd empty (by decide)

theorem parseBody_getCode_reading (known : UInt32) (mi : Msg)
    (here : Unread content complete l ents) :
    Reading (Unread content complete) (ReadsBody complete known getCode mi ents)
      (BodyStarves complete known getCode ents)
      (parseBody getCode known { mi with op := getCode } l) := by
  rw [parseBody, if_neg (by decide), if_pos rfl]
  refine .of_iff (.bind (logEnt32Exp_reading piOutput here) fun crc32 _ _ _ there =>
    Reading.pure there _) (fun result left => ?_) ?_
  · constructor
    · rintro ⟨crc32, _, rfl, rfl, rfl⟩
      exact ⟨.getCode crc32, known, rfl, .getCode crc32, rfl, rfl⟩
    · rintro ⟨message, after, same, follows, rfl, rfl⟩
      obtain ⟨crc32, rfl⟩ := Message.op_eq_getCode same
      cases follows
      exact ⟨crc32, left, rfl, rfl, rfl⟩
  · constructor
    · rintro (⟨whole, cut⟩ | ⟨_, _, _, never⟩)
      · exact .crc whole cut
      · exact never.elim
    · intro starves
      cases starves with
      | crc whole cut => exact .inl ⟨whole, cut⟩

theorem parseBody_bootSuccess_reading (known : UInt32) (mi : Msg)
    (here : Unread content complete l ents) :
    Reading (Unread content complete) (ReadsBody complete known bootSuccess mi ents)
      (BodyStarves complete known bootSuccess ents)
      (parseBody bootSuccess known { mi with op := bootSuccess } l) := by
  rw [parseBody, if_neg (by decide), if_neg (by decide), if_pos rfl]
  refine .of_iff (.bind (logReadall_reading piOutput here) fun _ _ _ _ there =>
    Reading.pure there _) (fun result left => ?_) ?_
  · constructor
    · rintro ⟨_, _, ⟨whole, rfl, output, rfl, rfl⟩, rfl, rfl⟩
      exact ⟨.bootSuccess output, known, rfl, .bootSuccess output whole rfl, rfl,
        (List.append_nil _).symm⟩
    · rintro ⟨message, after, same, follows, rfl, rfl⟩
      obtain ⟨output, rfl⟩ := Message.op_eq_bootSuccess same
      cases follows with
      | bootSuccess _ whole last =>
          subst last
          exact ⟨_, [], ⟨whole, rfl, output, List.append_nil _, rfl⟩, rfl, rfl⟩
  · constructor
    · rintro (never | ⟨_, _, _, never⟩)
      · exact never.elim
      · exact never.elim
    · intro starves
      cases starves

theorem parseBody_putCode_reading (known : UInt32) (mi : Msg)
    (here : Unread content complete l ents) :
    Reading (Unread content complete) (ReadsBody complete known putCode mi ents)
      (BodyStarves complete known putCode ents)
      (parseBody putCode known { mi with op := putCode } l) := by
  rw [parseBody, if_neg (by decide), if_neg (by decide), if_neg (by decide), if_neg (by decide),
    if_pos rfl]
  refine .of_iff (.bind (.assertThat here (known != 0) "nbytes") fun _ _ _ same there =>
    .bind (logReadN_reading unixOutput known (same.2 ▸ there)) fun _ _ _ _ there =>
    Reading.pure there _) (fun result left => ?_) ?_
  · constructor
    · rintro ⟨_, _, ⟨announced, rfl⟩, _, _, ⟨code, size, rfl, rfl⟩, rfl, rfl⟩
      refine ⟨.putCode code, known, rfl, .putCode (bne_iff_ne.mp announced) size, ?_, rfl⟩
      rw [Message.stored, size, UInt32.ofNat_toNat]
      rfl
    · rintro ⟨message, after, same, follows, rfl, rfl⟩
      obtain ⟨code, rfl⟩ := Message.op_eq_putCode same
      cases follows with
      | putCode announced size =>
          refine ⟨(), _, ⟨bne_iff_ne.mpr announced, rfl⟩, _, left, ⟨code, size, rfl, rfl⟩, ?_, rfl⟩
          rw [Message.stored, size, UInt32.ofNat_toNat]
          rfl
  · constructor
    · rintro (never | ⟨_, _, ⟨_, rfl⟩, ⟨full, more⟩ | ⟨_, _, _, never⟩⟩)
      · exact never.elim
      · exact .code full more
      · exact never.elim
    · intro starves
      cases starves with
      | code full more =>
          refine .inr ⟨(), ents, ⟨bne_iff_ne.mpr ?_, rfl⟩, .inl ⟨full, more⟩⟩
          rintro rfl
          exact absurd full (by decide)

theorem parseBody_putProgInfo_reading (known : UInt32) (mi : Msg)
    (here : Unread content complete l ents) :
    Reading (Unread content complete) (ReadsBody complete known putProgInfo mi ents)
      (BodyStarves complete known putProgInfo ents)
      (parseBody putProgInfo known { mi with op := putProgInfo } l) := by
  -- the number of code bytes is taken from the first message that has one
  have compared : ∀ armbase nbytes crc32 : UInt32, ∀ {l ents}, Unread content complete l ents →
      Reading (Unread content complete)
        (fun result left => (known = 0 ∨ known = nbytes) ∧
          result = ((Message.putProgInfo armbase nbytes crc32).stored mi, nbytes) ∧ left = ents)
        False
        ((if known ≠ 0 then do
            Prog.assertThat (known == nbytes) "nbytes == p->nbytes"
            pure ((Message.putProgInfo armbase nbytes crc32).stored mi, known)
          else pure ((Message.putProgInfo armbase nbytes crc32).stored mi, nbytes) :
            Prog LogT (Msg × UInt32)) l) := by
    intro armbase nbytes crc32 l ents here
    by_cases first : known = 0
    · rw [if_neg (not_not_intro first)]
      exact (Reading.pure here _).of_iff (fun result left => by simp [first]) Iff.rfl
    · rw [if_pos first]
      refine .of_iff (.bind (.assertThat here (known == nbytes) _) fun _ _ _ _ there =>
        Reading.pure there _) (fun result left => ?_) (by simp)
      constructor
      · rintro ⟨_, _, ⟨same, rfl⟩, rfl, rfl⟩
        cases beq_iff_eq.mp same
        exact ⟨.inr rfl, rfl, rfl⟩
      · rintro ⟨agrees, rfl, rfl⟩
        cases agrees.resolve_left first
        exact ⟨(), left, ⟨beq_iff_eq.mpr rfl, rfl⟩, rfl, rfl⟩
  rw [parseBody, if_neg (by decide), if_neg (by decide), if_neg (by decide), if_pos rfl]
  refine .of_iff (.bind (logEnt32Exp_reading unixOutput here) fun armbase _ _ _ there =>
    .bind (logEnt32Exp_reading unixOutput there) fun nbytes _ _ _ there =>
    .bind (logEnt32Exp_reading unixOutput there) fun crc32 _ _ _ there =>
    compared armbase nbytes crc32 there) (fun result left => ?_) ?_
  · constructor
    · rintro ⟨armbase, _, rfl, nbytes, _, rfl, crc32, _, rfl, agrees, rfl, rfl⟩
      refine ⟨.putProgInfo armbase nbytes crc32, nbytes, rfl, .putProgInfo armbase crc32 agrees,
        rfl, ?_⟩
      simp only [Message.sender, Message.body, sent_append, List.append_assoc]
    · rintro ⟨message, after, same, follows, rfl, rfl⟩
      obtain ⟨armbase, nbytes, crc32, rfl⟩ := Message.op_eq_putProgInfo same
      cases follows with
      | putProgInfo _ _ agrees =>
          refine ⟨armbase, _, ?_, _, _, rfl, crc32, left, rfl, agrees, rfl, rfl⟩
          simp only [Message.sender, Message.body, sent_append, List.append_assoc]
  · constructor
    · rintro (⟨whole, cut⟩ | ⟨armbase, _, rfl, ⟨whole, cut⟩ | ⟨nbytes, _, rfl, ⟨whole, cut⟩ |
        ⟨_, _, _, never⟩⟩⟩)
      · exact .info [] (by decide) whole cut
      · have starves : BodyStarves complete known putProgInfo _ :=
          .info [armbase] (by simp) whole cut
        rwa [List.flatMap_singleton] at starves
      · have starves : BodyStarves complete known putProgInfo _ :=
          .info [armbase, nbytes] (by simp) whole cut
        rwa [List.flatMap_cons, List.flatMap_singleton, sent_append, List.append_assoc] at starves
      · exact never.elim
    · intro starves
      cases starves with
      | info words few whole cut =>
          rcases words with _ | ⟨armbase, _ | ⟨nbytes, _ | ⟨crc32, words⟩⟩⟩
          · exact .inl ⟨whole, cut⟩
          · refine .inr ⟨armbase, _, ?_, .inl ⟨whole, cut⟩⟩
            rw [List.flatMap_singleton]
          · refine .inr ⟨armbase, _, ?_, .inr ⟨nbytes, _, rfl, .inl ⟨whole, cut⟩⟩⟩
            rw [List.flatMap_cons, List.flatMap_singleton, sent_append, List.append_assoc]
          · simp only [List.length_cons] at few
            omega

theorem opCheck_reading (op : UInt32) (here : Unread content complete l ents) :
    Reading (Unread content complete)
      (fun _ left => op ∈ [bootStart, getProgInfo, putProgInfo, getCode, putCode, bootSuccess,
        bootError, printString, badCodeAddr, badCodeCksum] ∧ left = ents) False (opCheck op l) := by
  rw [opCheck]
  split
  · rename_i valid
    exact (Reading.pure here ()).of_iff (fun _ left => by simp [valid]) Iff.rfl
  · rename_i invalid
    exact .reported (fun _ _ both => invalid both.1) not_false

theorem parseBody_reading (op known : UInt32) (mi : Msg) (here : Unread content complete l ents) :
    Reading (Unread content complete) (ReadsBody complete known op mi ents)
      (BodyStarves complete known op ents) (parseBody op known { mi with op } l) := by
  by_cases empty : op = getProgInfo ∨ op = bootError ∨ op = badCodeAddr ∨ op = badCodeCksum
  · exact parseBody_empty_reading empty known mi here
  by_cases isGetCode : op = getCode
  · exact isGetCode ▸ parseBody_getCode_reading known mi here
  by_cases isBootSuccess : op = bootSuccess
  · exact isBootSuccess ▸ parseBody_bootSuccess_reading known mi here
  by_cases isPutProgInfo : op = putProgInfo
  · exact isPutProgInfo ▸ parseBody_putProgInfo_reading known mi here
  by_cases isPutCode : op = putCode
  · exact isPutCode ▸ parseBody_putCode_reading known mi here
  have none : ∀ result left, ¬ ReadsBody complete known op mi ents result left := by
    rintro result left ⟨message, after, rfl, _, _, _⟩
    cases message with
    | getCode => exact isGetCode rfl
    | bootSuccess => exact isBootSuccess rfl
    | putProgInfo => exact isPutProgInfo rfl
    | putCode => exact isPutCode rfl
    | _ => exact empty (by decide)
  have wet : ¬ BodyStarves complete known op ents := by
    intro starves
    cases starves with
    | crc => exact isGetCode rfl
    | info => exact isPutProgInfo rfl
    | code => exact isPutCode rfl
  rw [parseBody, if_neg empty, if_neg isGetCode, if_neg isBootSuccess, if_neg isPutProgInfo,
    if_neg isPutCode]
  split
  · exact .reported none wet
  · exact .reported none wet

end

end Cs140e.Replay.PrettyPrint
