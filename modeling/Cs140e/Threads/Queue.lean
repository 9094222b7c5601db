import Mathlib.Data.List.Perm.Subperm
import Mathlib.Data.UInt
import Cs140e.Library.Linked
import Cs140e.Library.Simulation

/-!
# The intrusive queues of the thread package

A translation of `Q.h`.  The elements of all queues share one `next` pointer
each, and a popped element keeps it.  Every queue refines a list.
-/

namespace Cs140e.Threads

open Cs140e.Library
open Cs140e.Library.Linked

/-! ## `Q.h` -/

/-- A pointer to an element; 0 is the null pointer. -/
abbrev Ptr := UInt32

/-- `Q_t`. -/
structure Q where
  head : Ptr
  tail : Ptr
  cnt : UInt32

/-- The `next` fields of the elements, and the queues. -/
structure Heap (Name : Type) where
  next : Ptr → Ptr
  queue : Name → Q

section

variable {Name : Type} [DecidableEq Name]

def load (q : Name) : Prog (Heap Name) Q := do pure ((← get).queue q)

def store (q : Name) (change : Q → Q) : Prog (Heap Name) Unit :=
  modify fun heap =>
    { heap with queue := Function.update heap.queue q (change (heap.queue q)) }

def loadNext (e : Ptr) : Prog (Heap Name) Ptr := do
  if e = 0 then throw (.undefined "e->next of the null pointer")
  pure ((← get).next e)

def storeNext (e next : Ptr) : Prog (Heap Name) Unit := do
  if e = 0 then throw (.undefined "e->next of the null pointer")
  modify fun heap => { heap with next := Function.update heap.next e next }

def qNelem (q : Name) : Prog (Heap Name) UInt32 := do pure (← load q).cnt

def qEmpty (q : Name) : Prog (Heap Name) Bool := do
  if (← load q).head ≠ 0 then pure false
  else
    Prog.assertThat ((← qNelem q) == 0) "Q_nelem(q) == 0"
    Prog.assertThat ((← load q).tail == 0) "invalid Q"
    pure true

def qPop (q : Name) : Prog (Heap Name) Ptr := do
  let e := (← load q).head
  if e = 0 then
    Prog.assertThat (← qEmpty q) "Q_empty(q)"
    pure 0
  else
    store q fun q => { q with cnt := q.cnt - 1 }
    let next ← loadNext e
    store q fun q => { q with head := next }
    if (← load q).head = 0 then store q fun q => { q with tail := 0 }
    pure e

def qAppend (q : Name) (e : Ptr) : Prog (Heap Name) Unit := do
  storeNext e 0
  store q fun q => { q with cnt := q.cnt + 1 }
  if (← load q).tail = 0 then store q fun q => { q with head := e, tail := e }
  else
    storeNext (← load q).tail e
    store q fun q => { q with tail := e }

def qPush (q : Name) (e : Ptr) : Prog (Heap Name) Unit := do
  store q fun q => { q with cnt := q.cnt + 1 }
  storeNext e (← load q).head
  store q fun q => { q with head := e }
  if (← load q).tail = 0 then store q fun q => { q with tail := e }

def qInsertAfter (q : Name) (e eNew : Ptr) : Prog (Heap Name) Unit := do
  if e = 0 then qPush q eNew
  else if (← load q).tail = e then qAppend q eNew
  else
    store q fun q => { q with cnt := q.cnt + 1 }
    storeNext eNew (← loadNext e)
    storeNext e eNew

end

/-! ## Runs -/

inductive QOp (Name : Type) where
  | empty (q : Name)
  | pop (q : Name)
  | append (q : Name) (e : Ptr)
  | push (q : Name) (e : Ptr)
  | insertAfter (q : Name) (e eNew : Ptr)

inductive Reply where
  | flag (empty : Bool)
  | elem (e : Ptr)
  | done
  deriving DecidableEq, Repr

section

variable {Name : Type} [DecidableEq Name]

def qStep : QOp Name → Prog (Heap Name) Reply
  | .empty q => do pure (.flag (← qEmpty q))
  | .pop q => do pure (.elem (← qPop q))
  | .append q e => do
      qAppend q e
      pure .done
  | .push q e => do
      qPush q e
      pure .done
  | .insertAfter q e eNew => do
      qInsertAfter q e eNew
      pure .done

/-! ## The lists -/

/-- The queues as lists. -/
abbrev Lists (Name : Type) := Name → List Ptr

/-- A new element behind the given one. -/
def insertBehind (e eNew : Ptr) : List Ptr → List Ptr
  | [] => []
  | c :: rest => if c = e then c :: eNew :: rest else c :: insertBehind e eNew rest

def listStep : QOp Name → Prog (Lists Name) Reply
  | .empty q => do pure (.flag ((← get) q).isEmpty)
  | .pop q => do
      match (← get) q with
      | [] => pure (.elem 0)
      | e :: rest =>
          modify fun lists => Function.update lists q rest
          pure (.elem e)
  | .append q e => do
      modify fun lists => Function.update lists q (lists q ++ [e])
      pure .done
  | .push q e => do
      modify fun lists => Function.update lists q (e :: lists q)
      pure .done
  | .insertAfter q e eNew => do
      modify fun lists => Function.update lists q
        (if e = 0 then eNew :: lists q else insertBehind e eNew (lists q))
      pure .done

/-- An element that is in no queue. -/
def Free (e : Ptr) (lists : Lists Name) : Prop := e ≠ 0 ∧ ∀ q, e ∉ lists q

/-- Only free elements are inserted, and only behind elements of the queue. -/
def Allowed : QOp Name → Lists Name → Prop
  | .empty _, _ | .pop _, _ => True
  | .append _ e, lists | .push _ e, lists => Free e lists
  | .insertAfter q e eNew, lists => Free eNew lists ∧ (e = 0 ∨ e ∈ lists q)

/-- A queue that holds the elements of a list. -/
structure Holds (next : Ptr → Ptr) (queue : Q) (l : List Ptr) : Prop where
  chain : Chain next 0 queue.head l
  tail_eq : queue.tail = l.getLast?.getD 0
  cnt_eq : queue.cnt.toNat = l.length

/-- The queues hold the lists, and no two of them share an element. -/
structure Represents (heap : Heap Name) (lists : Lists Name) : Prop where
  holds : ∀ q, Holds heap.next (heap.queue q) (lists q)
  apart : ∀ q q' e, e ∈ lists q → e ∈ lists q' → q = q'

end

end Cs140e.Threads
