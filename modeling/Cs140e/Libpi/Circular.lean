import Mathlib.Data.Vector.Basic
import Cs140e.Library.Prog

/-!
# The circular queue of libpi

A translation of `libc/circular.h`.  `N` is `CQ_N`.  The queue indices are
32-bit unsigned numbers; that they stay below `CQ_N` is part of the type, so
every slot that is read or written exists.  A flag result of the source that
comes with an out-parameter is an `Option`: `none` is the return value 0, which
leaves the out-parameter alone.
-/

namespace Cs140e.Libpi.Circular

open Cs140e.Library

/-- `cqe_t`, an unsigned char. -/
abbrev Cqe := UInt8

/-- Reduction of 32-bit unsigned arithmetic. -/
def unsigned (value : Nat) : Nat := value % 2 ^ 32

/-- 32-bit unsigned subtraction. -/
def unsignedSub (left right : Nat) : Nat := unsigned (left + 2 ^ 32 - right)

/-- `cq_t`. -/
structure Cq (N : Nat) where
  cBuf : Vector Cqe N
  fence : Nat
  head : Nat
  tail : Nat
  overflow : Nat
  errorsFatalP : Bool
  head_lt : head < N
  tail_lt : tail < N

namespace Cq

variable {N : Nat}

theorem size_pos (c : Cq N) : 0 < N := Nat.lt_of_le_of_lt (Nat.zero_le _) c.head_lt

/-- `(index + 1) % (CQ_N)`. -/
def next (N index : Nat) : Nat := unsigned (index + 1) % N

theorem next_lt (c : Cq N) (index : Nat) : next N index < N := Nat.mod_lt _ c.size_pos

/-- `c->head = (head + 1) % (CQ_N)`. -/
def setHead (c : Cq N) (head : Nat) (small : head < N) : Cq N :=
  { c with head := head, head_lt := small }

/-- `c->tail = tail`. -/
def setTail (c : Cq N) (tail : Nat) (small : tail < N) : Cq N :=
  { c with tail := tail, tail_lt := small }

/-- `c->c_buf[index] = x`. -/
def setSlot (c : Cq N) (index : Nat) (small : index < N) (x : Cqe) : Cq N :=
  { c with cBuf := c.cBuf.set index x small }

/-- The byte in a slot; slots past the end of the array do not occur. -/
def slot (c : Cq N) (index : Nat) : Cqe := c.cBuf[index]?.getD 0

@[simp]
theorem setHead_head (c : Cq N) (head : Nat) (small : head < N) :
    (c.setHead head small).head = head := rfl

@[simp]
theorem setHead_tail (c : Cq N) (head : Nat) (small : head < N) :
    (c.setHead head small).tail = c.tail := rfl

@[simp]
theorem setHead_slot (c : Cq N) (head : Nat) (small : head < N) :
    (c.setHead head small).slot = c.slot := rfl

@[simp]
theorem setTail_head (c : Cq N) (tail : Nat) (small : tail < N) :
    (c.setTail tail small).head = c.head := rfl

@[simp]
theorem setTail_tail (c : Cq N) (tail : Nat) (small : tail < N) :
    (c.setTail tail small).tail = tail := rfl

@[simp]
theorem setTail_slot (c : Cq N) (tail : Nat) (small : tail < N) :
    (c.setTail tail small).slot = c.slot := rfl

@[simp]
theorem setSlot_head (c : Cq N) (index : Nat) (small : index < N) (x : Cqe) :
    (c.setSlot index small x).head = c.head := rfl

@[simp]
theorem setSlot_tail (c : Cq N) (index : Nat) (small : index < N) (x : Cqe) :
    (c.setSlot index small x).tail = c.tail := rfl

/-- Writing a slot changes that slot only. -/
theorem setSlot_slot (c : Cq N) (index : Nat) (small : index < N) (x : Cqe) :
    (c.setSlot index small x).slot = Function.update c.slot index x := by
  funext other
  by_cases same : other = index
  · rw [same, Function.update_self]
    simp [slot, setSlot, small]
  · rw [Function.update_of_ne same]
    simp [slot, setSlot, Ne.symm same]

end Cq

variable {N : Nat}

/-! ## Tests -/

def cqEmpty (q : Cq N) : Bool := q.head == q.tail

def cqFull (q : Cq N) : Bool := Cq.next N q.head == q.tail

def cqNelem (q : Cq N) : Nat := unsignedSub q.head q.tail % N

def cqNspace (q : Cq N) : Nat := N - cqNelem q

/-! ## Popping, pushing and peeking -/

def cqPopNonblock : Prog (Cq N) (Option Cqe) := fun c =>
  if cqEmpty c then .ok none c
  else .ok (some (c.slot c.tail)) (c.setTail (Cq.next N c.tail) (c.next_lt _))

def cqPop : Prog (Cq N) Cqe := do
  match ← cqPopNonblock with
  | some e => pure e
  | none => throw (.panic "will deadlock: interrupts not enabled [FIXME]\n")

def cqPush (x : Cqe) : Prog (Cq N) Bool := fun c =>
  if cqFull c then .ok false c
  else .ok true
    ((c.setSlot c.head c.head_lt x).setHead (Cq.next N c.head) (c.next_lt _))

def cqPeek : Prog (Cq N) (Option Cqe) := fun c =>
  if cqEmpty c then .ok none c
  else .ok (some (c.slot c.tail)) c

/-- The list is what `cq_pop_n` stores into the caller's `data`. -/
def cqPopN : Nat → Prog (Cq N) (List Cqe)
  | 0 => pure []
  | n + 1 => do
      let e ← cqPop
      let rest ← cqPopN n
      pure (e :: rest)

def cqPopNNoblk (n : Nat) : Prog (Cq N) (Option (List Cqe)) := do
  if cqNelem (← get) < n then pure none
  else
    let data ← cqPopN n
    pure (some data)

/-- `c->tail = tail` with the tail read from an earlier state of the queue. -/
def restoreTail (saved : Cq N) : Prog (Cq N) Unit :=
  modify fun c => c.setTail saved.tail saved.tail_lt

/-- `CQ_N` is at most `2 ^ 31`, so the `int sz` of the source is never negative. -/
def cqPeekN (n : Nat) : Prog (Cq N) (Option (List Cqe)) := do
  let before ← get
  if n > cqNelem before then pure none
  else
    match ← cqPopNNoblk n with
    | none => pure none
    | some v =>
        restoreTail before
        Prog.assertThat (cqNelem before == cqNelem (← get)) "sz == cq_nelem(c)"
        pure (some v)

def cqPushAll : List Cqe → Prog (Cq N) Unit
  | [] => pure ()
  | x :: rest => do
      if ← cqPush x then cqPushAll rest
      else throw (.panic "not handling this\n")

/-- `data` is the caller's buffer of `n` bytes. -/
def cqPushN (data : List Cqe) : Prog (Cq N) Bool := do
  if cqNspace (← get) < data.length then pure false
  else
    cqPushAll data
    if data.length ≠ 0 then
      Prog.assertThat (!cqEmpty (← get)) "!cq_empty(c)"
    pure true

/-! ## Initialization -/

/-- The queue as `cq_init` leaves it before its assertions. -/
def Cq.zeroed (positive : 0 < N) (errorsFatalP : Bool) : Cq N where
  cBuf := Vector.replicate N 0
  fence := 0x12345678
  head := 0
  tail := 0
  overflow := 0
  errorsFatalP := errorsFatalP
  head_lt := positive
  tail_lt := positive

/-- The assertions at the end of `cq_init`. -/
def cqInitChecks : Prog (Cq N) Unit := do
  let c ← get
  Prog.assertThat (cqEmpty c) "cq_empty(c)"
  Prog.assertThat (!cqFull c) "!cq_full(c)"
  Prog.assertThat (cqNelem c == 0) "cq_nelem(c) == 0"
  let e ← cqPopNonblock
  Prog.assertThat e.isNone "cq_pop_nonblock(c,&e) == 0 && e == 0x12"

def cqInit (positive : 0 < N) (errorsFatalP : Bool) : Outcome (Cq N) Unit :=
  cqInitChecks (Cq.zeroed positive errorsFatalP)

end Cs140e.Libpi.Circular
