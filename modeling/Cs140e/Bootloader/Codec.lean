import Cs140e.Bootloader.SimpleBoot

/-!
# Words and strings on the wire

What the pi sends for a word or a string, and what the unix side makes of it.
-/

namespace Cs140e.Bootloader

open Cs140e.Library
open Cs140e.Library.LittleEndian

/-! ## Reading words -/

@[simp]
theorem getByte_cons (b : UInt8) (rest out : List UInt8) :
    getByte ⟨b :: rest, out⟩ = .ok b ⟨rest, out⟩ := rfl

@[simp]
theorem output_apply (text tty out : List UInt8) :
    output text ⟨tty, out⟩ = .ok () ⟨tty, out ++ text⟩ := rfl

theorem getUint32_cons (b0 b1 b2 b3 : UInt8) (rest out : List UInt8) :
    getUint32 ⟨b0 :: b1 :: b2 :: b3 :: rest, out⟩ = .ok (wordOf [b0, b1, b2, b3]) ⟨rest, out⟩ := by
  rw [← or_shift]
  rfl

theorem getUint32_bytesOf (word : UInt32) (rest out : List UInt8) :
    getUint32 ⟨bytesOf word ++ rest, out⟩ = .ok word ⟨rest, out⟩ := by
  conv_rhs => rw [← wordOf_bytesOf word]
  exact getUint32_cons _ _ _ _ rest out

theorem getUint32_short {tty : List UInt8} (short : tty.length < 4) (out : List UInt8) :
    getUint32 ⟨tty, out⟩ = .error timedOut ⟨[], out⟩ := by
  rcases tty with _ | ⟨b0, _ | ⟨b1, _ | ⟨b2, _ | ⟨b3, rest⟩⟩⟩⟩
  · rfl
  · rfl
  · rfl
  · rfl
  · simp only [List.length_cons] at short
    omega

/-- A word that was read was the first four bytes. -/
theorem bytes_of_getUint32 {fd after : UnixEnd} {word : UInt32}
    (returned : getUint32 fd = .ok word after) : fd = ⟨bytesOf word ++ after.tty, after.out⟩ := by
  obtain ⟨tty, out⟩ := fd
  rcases Nat.lt_or_ge tty.length 4 with short | long
  · rw [getUint32_short short] at returned
    cases returned
  · obtain ⟨first, split⟩ := exists_word tty long
    rw [split, getUint32_bytesOf] at returned
    obtain ⟨rfl, rfl⟩ := EStateM.Result.ok.inj returned
    rw [← split]

/-! ## Strings -/

theorem echoBytes_append (text rest out : List UInt8) :
    echoBytes text.length ⟨text ++ rest, out⟩ = .ok () ⟨rest, out ++ text⟩ := by
  induction text generalizing out with
  | nil =>
      rw [List.append_nil]
      rfl
  | cons b text ih =>
      have rest := ih (out ++ [b])
      rw [List.append_assoc] at rest
      rw [List.length_cons, echoBytes, List.cons_append, Prog.bind_of_ok (getByte_cons _ _ _),
        Prog.bind_of_ok (output_apply _ _ _)]
      exact rest

theorem echoBytes_le (nbytes : Nat) {fd after : UnixEnd}
    (returned : echoBytes nbytes fd = .ok () after) : after.tty.length ≤ fd.tty.length := by
  induction nbytes generalizing fd with
  | zero =>
      cases returned
      exact Nat.le_refl _
  | succ nbytes ih =>
      obtain ⟨tty, out⟩ := fd
      cases tty with
      | nil => cases returned
      | cons b tty =>
          rw [echoBytes, Prog.bind_of_ok (getByte_cons _ _ _),
            Prog.bind_of_ok (output_apply _ _ _)] at returned
          exact Nat.le_succ_of_le (ih returned)

/-- What `get_op` writes for a string. -/
def echoOf (text : List UInt8) : List UInt8 :=
  asciiBytes "pi sent print: <" ++ text ++ asciiBytes ">\n"

/-- The message that asks to print a string. -/
def printMessage (text : List UInt8) : List UInt8 :=
  bytesOf printString ++ (bytesOf (UInt32.ofNat text.length) ++ text)

/-! ## `get_op` -/

theorem getOpRound_word {word : UInt32} (other : word ≠ printString) (rest out : List UInt8) :
    getOpRound ⟨bytesOf word ++ rest, out⟩ = .ok (some word) ⟨rest, out⟩ := by
  rw [getOpRound, Prog.bind_of_ok (getUint32_bytesOf word rest out), if_pos other]
  rfl

theorem getOpRound_print {text : List UInt8} (short : text.length < 512) (rest out : List UInt8) :
    getOpRound ⟨printMessage text ++ rest, out⟩ = .ok none ⟨rest, out ++ echoOf text⟩ := by
  have count : (UInt32.ofNat text.length).toNat = text.length := by
    rw [UInt32.toNat_ofNat', Nat.mod_eq_of_lt (by omega)]
  have small : decide (UInt32.ofNat text.length < 512) = true := by
    rw [decide_eq_true_iff, UInt32.lt_iff_toNat_lt, count]
    exact short
  have echoed := echoBytes_append text rest (out ++ asciiBytes "pi sent print: <")
  rw [printMessage, List.append_assoc, List.append_assoc, getOpRound,
    Prog.bind_of_ok (getUint32_bytesOf _ _ _), if_neg (not_not_intro rfl),
    Prog.bind_of_ok (getUint32_bytesOf _ _ _), Prog.bind_of_ok (Prog.assertThat_of _ _ small),
    Prog.bind_of_ok (output_apply _ _ _), count, Prog.bind_of_ok echoed,
    Prog.bind_of_ok (output_apply _ _ _), echoOf, List.append_assoc, List.append_assoc,
    List.append_assoc]
  rfl

theorem getOpRound_lt {fd after : UnixEnd} {result : Option UInt32}
    (returned : getOpRound fd = .ok result after) : after.tty.length < fd.tty.length := by
  obtain ⟨op, middle, first, rest⟩ := Prog.ok_of_bind_ok returned
  have shorter : middle.tty.length < fd.tty.length := by
    rw [bytes_of_getUint32 first, List.length_append, length_bytesOf]
    omega
  by_cases other : op ≠ printString
  · rw [if_pos other] at rest
    cases rest
    exact shorter
  · rw [if_neg other] at rest
    obtain ⟨nbytes, counted, second, checked⟩ := Prog.ok_of_bind_ok rest
    have le : counted.tty.length ≤ middle.tty.length := by
      rw [bytes_of_getUint32 second, List.length_append]
      omega
    obtain ⟨_, _, asserted, printed⟩ := Prog.ok_of_bind_ok checked
    obtain ⟨_, rfl⟩ := Prog.holds_of_assertThat_ok asserted
    rw [Prog.bind_of_ok (output_apply _ _ _)] at printed
    obtain ⟨_, last, echoed, ended⟩ := Prog.ok_of_bind_ok printed
    rw [Prog.bind_of_ok (output_apply _ _ _)] at ended
    cases ended
    have echoedLe := echoBytes_le _ echoed
    exact Nat.lt_of_le_of_lt (Nat.le_trans echoedLe le) shorter

theorem getOp_loops (fd : UnixEnd) : Loops getOpRound fd (getOp fd) :=
  Loops.of_repeatUntil (fun fd => fd.tty.length) (fun _ _ => getOpRound_lt) _ fd
    (Nat.lt_succ_self _)

theorem getOp_eq {fd : UnixEnd} {outcome : Outcome UnixEnd UInt32}
    (loops : Loops getOpRound fd outcome) : getOp fd = outcome :=
  (getOp_loops fd).unique loops

/-- A word is returned, the rest stays in the tty. -/
theorem getOp_word {word : UInt32} (other : word ≠ printString) (rest out : List UInt8) :
    getOp ⟨bytesOf word ++ rest, out⟩ = .ok word ⟨rest, out⟩ :=
  getOp_eq (.ends (getOpRound_word other rest out))

/-- A string is echoed before anything else happens. -/
theorem getOp_print {text : List UInt8} (short : text.length < 512) (rest out : List UInt8) :
    getOp ⟨printMessage text ++ rest, out⟩ = getOp ⟨rest, out ++ echoOf text⟩ :=
  getOp_eq (.goesOn (getOpRound_print short rest out) (getOp_loops _))

theorem getOp_short {tty : List UInt8} (short : tty.length < 4) (out : List UInt8) :
    getOp ⟨tty, out⟩ = .error timedOut ⟨[], out⟩ := by
  refine getOp_eq (.stops ?_)
  rw [getOpRound, Prog.bind_of_error (getUint32_short short out)]

theorem getOp_lt {fd after : UnixEnd} {op : UInt32} (returned : getOp fd = .ok op after) :
    after.tty.length < fd.tty.length := by
  have loops := getOp_loops fd
  rw [returned] at loops
  exact loops.shrinks (fun fd => fd.tty.length) (fun _ _ ran => Nat.le_of_lt (getOpRound_lt ran))
    fun _ _ _ ran => getOpRound_lt ran

/-! ## The pi side -/

theorem putUint_apply (u : UInt32) (sent : Uart) :
    putUint u sent = .ok () (sent ++ bytesOf u) := by
  have bytes : bytesOf u =
      [((u >>> 0) &&& 0xff).toUInt8, ((u >>> 8) &&& 0xff).toUInt8, ((u >>> 16) &&& 0xff).toUInt8,
        ((u >>> 24) &&& 0xff).toUInt8] := by
    have b0 := shift_and u 0 (by decide)
    have b1 := shift_and u 8 (by decide)
    have b2 := shift_and u 16 (by decide)
    have b3 := shift_and u 24 (by decide)
    rw [Nat.pow_zero, Nat.div_one] at b0
    rw [bytesOf, ← b0, ← b1, ← b2, ← b3]
    rfl
  rw [bytes]
  change EStateM.Result.ok () (sent ++ _ ++ _ ++ _ ++ _) = _
  simp only [List.append_assoc, List.cons_append, List.nil_append]

theorem lameStrlen_apply {text : List UInt8} (noNul : 0 ∉ text) (memory : List UInt8)
    (n : Nat) (sent : Uart) :
    lameStrlen (text ++ 0 :: memory) n sent = .ok (n + text.length) sent := by
  induction text generalizing n with
  | nil => rfl
  | cons c text ih =>
      rw [List.cons_append, lameStrlen, if_neg (List.ne_of_not_mem_cons noNul).symm,
        ih (List.not_mem_of_not_mem_cons noNul), List.length_cons]
      congr 1
      omega

theorem putBytes_apply {text : List UInt8} (noNul : 0 ∉ text) (memory : List UInt8)
    (sent : Uart) : putBytes (text ++ 0 :: memory) sent = .ok () (sent ++ text) := by
  induction text generalizing sent with
  | nil =>
      rw [List.append_nil]
      rfl
  | cons c text ih =>
      have put : putByte c sent = .ok () (sent ++ [c]) := rfl
      rw [List.cons_append, putBytes, if_neg (List.ne_of_not_mem_cons noNul).symm,
        Prog.bind_of_ok put, ih (List.not_mem_of_not_mem_cons noNul), List.append_assoc]
      rfl

/-- `putk` sends the message for the string up to its NUL. -/
theorem putk_apply {text : List UInt8} (noNul : 0 ∉ text) (memory : List UInt8)
    (sent : Uart) : putk (text ++ 0 :: memory) sent = .ok () (sent ++ printMessage text) := by
  have counted := lameStrlen_apply noNul memory 0 (sent ++ bytesOf printString)
  rw [Nat.zero_add] at counted
  rw [putk, Prog.bind_of_ok (putUint_apply _ _), Prog.bind_of_ok counted,
    Prog.bind_of_ok (putUint_apply _ _), putBytes_apply noNul, printMessage, List.append_assoc,
    List.append_assoc]

end Cs140e.Bootloader
