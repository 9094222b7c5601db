import Cs140e.Bootloader.Codec

/-!
# Strings to print do not disturb the protocol

The pi may print between any two words of the protocol.  The unix side gets the
words as if nothing had been printed.
-/

namespace Cs140e.Bootloader

open Cs140e.Library
open Cs140e.Library.LittleEndian

/-- One thing the pi sends. -/
inductive Item where
  | print (text : List UInt8)
  | word (u : UInt32)

namespace Item

/-- A C string that `get_op` accepts, or a word that does not announce one. -/
def Sendable : Item → Prop
  | print text => 0 ∉ text ∧ text.length < 512
  | word u => u ≠ printString

def send : Item → Prog Uart Unit
  | print text => putk (text ++ [0])
  | word u => putUint u

def sendAll : List Item → Prog Uart Unit
  | [] => pure ()
  | item :: items => do
      item.send
      sendAll items

def bytes : Item → List UInt8
  | print text => printMessage text
  | word u => bytesOf u

def word? : Item → Option UInt32
  | print _ => none
  | word u => some u

def echo : Item → List UInt8
  | print text => echoOf text
  | word _ => []

theorem send_apply {item : Item} (sendable : item.Sendable) (sent : Uart) :
    item.send sent = .ok () (sent ++ item.bytes) := by
  cases item with
  | print text => exact putk_apply sendable.1 [] sent
  | word u => exact putUint_apply u sent

end Item

/-- The words among the items. -/
def words (items : List Item) : List UInt32 := items.filterMap Item.word?

/-- What is written for the strings among the items. -/
def echoes (items : List Item) : List UInt8 := items.flatMap Item.echo

def wire (items : List Item) : List UInt8 := items.flatMap Item.bytes

theorem send_all {items : List Item} (sendable : ∀ item ∈ items, item.Sendable) (sent : Uart) :
    Item.sendAll items sent = .ok () (sent ++ wire items) := by
  induction items generalizing sent with
  | nil =>
      rw [wire, List.flatMap_nil, List.append_nil]
      rfl
  | cons item items ih =>
      rw [Item.sendAll, Prog.bind_of_ok (Item.send_apply (sendable item List.mem_cons_self) sent),
        ih (fun other mem => sendable other (List.mem_cons_of_mem item mem)), List.append_assoc]
      rfl

/-- Successive calls of `get_op`. -/
def getOps (count : Nat) : Prog UnixEnd (List UInt32) :=
  (List.replicate count ()).mapM fun _ => getOp

theorem getOps_succ (count : Nat) :
    getOps (count + 1) = (do
      let op ← getOp
      let ops ← getOps count
      pure (op :: ops)) := by
  rw [getOps, List.replicate_succ, List.mapM_cons]
  rfl

theorem getOps_print {text : List UInt8} (short : text.length < 512) (count : Nat)
    (rest out : List UInt8) :
    getOps (count + 1) ⟨printMessage text ++ rest, out⟩ =
      getOps (count + 1) ⟨rest, out ++ echoOf text⟩ := by
  have same := getOp_print short rest out
  rw [getOps_succ]
  cases ran : getOp ⟨rest, out ++ echoOf text⟩ with
  | ok op after =>
      rw [ran] at same
      rw [Prog.bind_of_ok same, Prog.bind_of_ok ran]
  | error stop after =>
      rw [ran] at same
      rw [Prog.bind_of_error same, Prog.bind_of_error ran]

theorem getOps_word {u : UInt32} (other : u ≠ printString) {count : Nat} {rest out : List UInt8}
    {ops : List UInt32} {after : UnixEnd} (later : getOps count ⟨rest, out⟩ = .ok ops after) :
    getOps (count + 1) ⟨bytesOf u ++ rest, out⟩ = .ok (u :: ops) after := by
  rw [getOps_succ, Prog.bind_of_ok (getOp_word other rest out), Prog.bind_of_ok later]
  rfl

/-- The calls return the words in order, each after the strings before it. -/
theorem getOps_upto_word {first : List Item} (sendable : ∀ item ∈ first, item.Sendable)
    {u : UInt32} (other : u ≠ printString) (rest out : List UInt8) :
    getOps ((words first).length + 1) ⟨wire first ++ (bytesOf u ++ rest), out⟩ =
      .ok (words first ++ [u]) ⟨rest, out ++ echoes first⟩ := by
  induction first generalizing out with
  | nil =>
      rw [show out ++ echoes [] = out from List.append_nil out]
      exact getOps_word other rfl
  | cons item first ih =>
      have later := ih fun item mem => sendable item (List.mem_cons_of_mem _ mem)
      cases item with
      | print text =>
          have short := (sendable _ List.mem_cons_self).2
          have echoed := later (out ++ echoOf text)
          rw [List.append_assoc] at echoed
          rw [show wire (.print text :: first) = printMessage text ++ wire first from rfl,
            List.append_assoc]
          exact (getOps_print short (words first).length _ out).trans echoed
      | word w =>
          rw [show wire (.word w :: first) = bytesOf w ++ wire first from rfl, List.append_assoc]
          exact getOps_word (sendable _ List.mem_cons_self) (later out)

/-- The call after the last word echoes what is left and waits for more. -/
theorem getOps_beyond {items : List Item} (sendable : ∀ item ∈ items, item.Sendable)
    (out : List UInt8) :
    getOps ((words items).length + 1) ⟨wire items, out⟩ =
      .error timedOut ⟨[], out ++ echoes items⟩ := by
  induction items generalizing out with
  | nil =>
      rw [show out ++ echoes [] = out from List.append_nil out, getOps_succ]
      exact Prog.bind_of_error (getOp_short (by decide) out)
  | cons item items ih =>
      have later := ih fun item mem => sendable item (List.mem_cons_of_mem _ mem)
      cases item with
      | print text =>
          have short := (sendable _ List.mem_cons_self).2
          have echoed := later (out ++ echoOf text)
          rw [List.append_assoc] at echoed
          exact (getOps_print short (words items).length (wire items) out).trans echoed
      | word w =>
          have read := getOp_word (sendable _ List.mem_cons_self) (wire items) out
          rw [show (words (.word w :: items)).length = (words items).length + 1 from rfl,
            getOps_succ, show wire (.word w :: items) = bytesOf w ++ wire items from rfl,
            Prog.bind_of_ok read, Prog.bind_of_error (later out)]
          rfl

/-- The unix side reads exactly the words of the items and echoes exactly their
strings, and every call ends where an item ends. -/
theorem prints_are_transparent {items : List Item} (sendable : ∀ item ∈ items, item.Sendable)
    {tty : List UInt8} (sent : Item.sendAll items [] = .ok () tty) (out : List UInt8) :
    (∀ first u last, items = first ++ .word u :: last →
      ∃ rest, Item.sendAll last [] = .ok () rest ∧
        getOps ((words first).length + 1) ⟨tty, out⟩ =
          .ok (words first ++ [u]) ⟨rest, out ++ echoes first⟩) ∧
      getOps ((words items).length + 1) ⟨tty, out⟩ =
        .error timedOut ⟨[], out ++ echoes items⟩ := by
  rw [send_all sendable, List.nil_append] at sent
  cases sent
  refine ⟨?_, getOps_beyond sendable out⟩
  rintro first u last rfl
  have sendableFirst : ∀ item ∈ first, item.Sendable :=
    fun item mem => sendable item (List.mem_append_left _ mem)
  have sendableLast : ∀ item ∈ last, item.Sendable :=
    fun item mem => sendable item (List.mem_append_right _ (List.mem_cons_of_mem _ mem))
  have other : u ≠ printString :=
    sendable (.word u) (List.mem_append_right _ List.mem_cons_self)
  refine ⟨wire last, send_all sendableLast [], ?_⟩
  rw [show wire (first ++ .word u :: last) = wire first ++ (bytesOf u ++ wire last) from
    List.flatMap_append]
  exact getOps_upto_word sendableFirst other (wire last) out

/-- A string that spells `GET_PROG_INFO` between two words. -/
def spelledOpcode : List Item :=
  [.word getCode, .print [0x22, 0x22, 0x11, 0x11], .word getProgInfo, .print (asciiBytes "hello")]

theorem prints_are_transparent_of_spelledOpcode :
    ∃ tty, Item.sendAll spelledOpcode [] = .ok () tty ∧
      getOps 2 ⟨tty, []⟩ =
        .ok [getCode, getProgInfo] ⟨printMessage (asciiBytes "hello"),
          echoOf [0x22, 0x22, 0x11, 0x11]⟩ := by
  have isText : ∀ text : List UInt8, 0 ∉ text → text.length < 512 →
      (Item.print text).Sendable := fun _ noNul short => ⟨noNul, short⟩
  have isWord : ∀ u, u ≠ printString → (Item.word u).Sendable := fun _ other => other
  have sendable : ∀ item ∈ spelledOpcode, item.Sendable := by
    simp only [spelledOpcode, List.forall_mem_cons, List.not_mem_nil, false_imp_iff, implies_true,
      and_true]
    exact ⟨isWord _ (by decide), isText _ (by decide) (by decide), isWord _ (by decide),
      isText _ (by decide) (by decide)⟩
  have sent := send_all sendable []
  obtain ⟨rest, sentLast, ran⟩ := (prints_are_transparent sendable sent []).1
    [.word getCode, .print [0x22, 0x22, 0x11, 0x11]] getProgInfo [.print (asciiBytes "hello")] rfl
  have sendableLast : ∀ item ∈ [Item.print (asciiBytes "hello")], item.Sendable :=
    fun item mem => sendable item
      (List.mem_cons_of_mem _ (List.mem_cons_of_mem _ (List.mem_cons_of_mem _ mem)))
  rw [send_all sendableLast] at sentLast
  cases sentLast
  exact ⟨_, sent, ran⟩

end Cs140e.Bootloader
