import Mathlib.Data.UInt
import Cs140e.Library.Prog

/-!
# Memory allocators

An allocator keeps a heap of its own and answers requests.  Its contract speaks
of every sequence of requests that it answers: each block is as large and as
aligned as it was requested, and no two blocks meet.
-/

namespace Cs140e.Library

/-- The bytes from an address on. -/
structure Block where
  addr : UInt32
  size : Nat
  deriving DecidableEq, Repr

namespace Block

def Has (block : Block) (byte : Nat) : Prop :=
  block.addr.toNat ≤ byte ∧ byte < block.addr.toNat + block.size

instance (block : Block) (byte : Nat) : Decidable (block.Has byte) :=
  inferInstanceAs (Decidable (_ ∧ _))

def Disjoint (left right : Block) : Prop := ∀ byte, ¬ (left.Has byte ∧ right.Has byte)

theorem Disjoint.symm {left right : Block} (apart : left.Disjoint right) : right.Disjoint left :=
  fun byte both => apart byte ⟨both.2, both.1⟩

/-- Two blocks that are not empty lie behind one another. -/
theorem Disjoint.order {left right : Block} (apart : left.Disjoint right) (first : 0 < left.size)
    (second : 0 < right.size) :
    left.addr.toNat + left.size ≤ right.addr.toNat ∨
      right.addr.toNat + right.size ≤ left.addr.toNat := by
  have onRight := apart right.addr.toNat
  have onLeft := apart left.addr.toNat
  simp only [Has] at onRight onLeft
  omega

theorem disjoint_of_le {left right : Block}
    (behind : left.addr.toNat + left.size ≤ right.addr.toNat) : left.Disjoint right := by
  intro byte both
  simp only [Has] at both
  omega

end Block

inductive Request where
  | plain (nbytes : UInt32)
  | aligned (nbytes alignment : UInt32)
  deriving DecidableEq, Repr

/-- A request with the block that answered it. -/
structure Grant where
  request : Request
  block : Block
  deriving DecidableEq, Repr

namespace Grant

/-- The block is what was requested. -/
def Fulfilled : Grant → Prop
  | ⟨.plain nbytes, block⟩ => nbytes.toNat ≤ block.size
  | ⟨.aligned nbytes alignment, block⟩ =>
      nbytes.toNat ≤ block.size ∧ alignment.toNat ∣ block.addr.toNat

def Apart (left right : Grant) : Prop := left.block.Disjoint right.block

end Grant

structure Allocator (Heap : Type) where
  answer : Request → Prog Heap Block

namespace Allocator

variable {Heap : Type}

/-- The requests that were answered from a first heap on. -/
inductive Served (allocator : Allocator Heap) (start : Heap) : List Grant → Heap → Prop
  | nothing : Served allocator start [] start
  | request {given : List Grant} {before after : Heap} {request : Request} {block : Block}
      (earlier : Served allocator start given before)
      (answered : allocator.answer request before = .ok block after) :
      Served allocator start (given ++ [⟨request, block⟩]) after

structure Contract (allocator : Allocator Heap) (start : Heap) : Prop where
  fulfilled : ∀ {given : List Grant} {heap : Heap}, allocator.Served start given heap →
    ∀ grant ∈ given, grant.Fulfilled
  apart : ∀ {given : List Grant} {heap : Heap}, allocator.Served start given heap →
    given.Pairwise Grant.Apart

theorem Contract.apart_of_ne {allocator : Allocator Heap} {start heap : Heap} {given : List Grant}
    (contract : allocator.Contract start) (served : allocator.Served start given heap) {i j : Nat}
    {left right : Grant} (first : given[i]? = some left) (second : given[j]? = some right)
    (differ : i ≠ j) : left.Apart right := by
  have apart := List.pairwise_iff_getElem.mp (contract.apart served)
  obtain ⟨insideI, rfl⟩ := List.getElem?_eq_some_iff.mp first
  obtain ⟨insideJ, rfl⟩ := List.getElem?_eq_some_iff.mp second
  rcases Nat.lt_or_gt_of_ne differ with earlier | later
  · exact apart i j insideI insideJ earlier
  · exact (apart j i insideJ insideI later).symm

/-! ## An allocator that never frees -/

/-- Round an address up. -/
def roundUp (heap alignment : Nat) : Nat := (heap + (alignment - 1)) / alignment * alignment

def bumpAt (nbytes alignment : Nat) : Prog Nat Block := fun heap =>
  if 0 < alignment ∧ roundUp heap alignment + nbytes < 2 ^ 32 then
    .ok ⟨UInt32.ofNat (roundUp heap alignment), nbytes⟩ (roundUp heap alignment + nbytes)
  else .error (.panic "out of memory") heap

/-- The heap is the first free address; a plain block is aligned to four bytes. -/
def bump : Allocator Nat where
  answer
    | .plain nbytes => bumpAt nbytes.toNat 4
    | .aligned nbytes alignment => bumpAt nbytes.toNat alignment.toNat

theorem le_roundUp (heap : Nat) {alignment : Nat} (positive : 0 < alignment) :
    heap ≤ roundUp heap alignment := by
  have quotient := Nat.lt_mul_div_succ (heap + (alignment - 1)) positive
  rw [Nat.mul_succ, Nat.mul_comm] at quotient
  rw [roundUp]
  omega

theorem bumpAt_ok {nbytes alignment heap after : Nat} {block : Block}
    (answered : bumpAt nbytes alignment heap = .ok block after) :
    block.size = nbytes ∧ alignment ∣ block.addr.toNat ∧ heap ≤ block.addr.toNat ∧
      after = block.addr.toNat + block.size := by
  rw [bumpAt] at answered
  split at answered
  · rename_i room
    obtain ⟨rfl, rfl⟩ := EStateM.Result.ok.inj answered
    have small : roundUp heap alignment < 2 ^ 32 := by omega
    rw [UInt32.toNat_ofNat_of_lt' small]
    exact ⟨rfl, Nat.dvd_mul_left _ _, le_roundUp heap room.1, rfl⟩
  · cases answered

theorem bump_answer {request : Request} {before after : Nat} {block : Block}
    (answered : bump.answer request before = .ok block after) :
    (Grant.mk request block).Fulfilled ∧ before ≤ block.addr.toNat ∧
      after = block.addr.toNat + block.size := by
  cases request with
  | plain nbytes =>
      obtain ⟨size, -, low, high⟩ := bumpAt_ok answered
      exact ⟨Nat.le_of_eq size.symm, low, high⟩
  | aligned nbytes alignment =>
      obtain ⟨size, aligned, low, high⟩ := bumpAt_ok answered
      exact ⟨⟨Nat.le_of_eq size.symm, aligned⟩, low, high⟩

theorem bump_served {start heap : Nat} {given : List Grant}
    (served : bump.Served start given heap) :
    (∀ grant ∈ given, grant.Fulfilled ∧ grant.block.addr.toNat + grant.block.size ≤ heap) ∧
      given.Pairwise Grant.Apart := by
  induction served with
  | nothing => exact ⟨fun _ mem => absurd mem List.not_mem_nil, List.Pairwise.nil⟩
  | @request given before after request block earlier answered ih =>
      obtain ⟨below, apart⟩ := ih
      obtain ⟨fulfilled, low, high⟩ := bump_answer answered
      constructor
      · intro grant mem
        rcases List.mem_append.mp mem with old | new
        · exact ⟨(below grant old).1, by have := (below grant old).2; omega⟩
        · obtain rfl := List.mem_singleton.mp new
          exact ⟨fulfilled, Nat.le_of_eq high.symm⟩
      · rw [List.pairwise_append]
        refine ⟨apart, List.pairwise_singleton _ _, ?_⟩
        intro grant old other new
        obtain rfl := List.mem_singleton.mp new
        exact Block.disjoint_of_le (Nat.le_trans (below grant old).2 low)

theorem bump_contract (start : Nat) : bump.Contract start where
  fulfilled served grant mem := ((bump_served served).1 grant mem).1
  apart served := (bump_served served).2

end Allocator

end Cs140e.Library
