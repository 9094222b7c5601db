import Cs140e.Library.Allocator

/-!
# Page tables on the heap

A translation of `mmu_pt_alloc` in `mmu.c`, over any allocator that keeps its
contract.  A page table has 4096 entries of four bytes, but only 4096 bytes are
requested for it.  Page tables share no memory exactly if the allocator leaves
the other 12288 bytes alone.
-/

namespace Cs140e.Vm

open Cs140e.Library

/-- The allocator, the memory, the blocks in the order they were given, and
the page tables. -/
structure Machine (Heap : Type) where
  heap : Heap
  memory : Nat → UInt8
  given : List Grant
  /-- The pointers that were returned, with the place of the block in `given`. -/
  tables : List (UInt32 × Nat)

def Machine.boot {Heap : Type} (start : Heap) (memory : Nat → UInt8) : Machine Heap :=
  ⟨start, memory, [], []⟩

/-- `is_aligned`, which subtracts one from the number of bits too. -/
def isAligned (x a : UInt32) : Bool := x &&& (a - 1) == 0

def isAlignedPtr (x a : UInt32) : Bool := isAligned x a

/-- `sizeof(fld_t)`. -/
def SIZEOF_FLD : UInt32 := 4

def memset (p : UInt32) (value : UInt8) (nbytes : UInt32) (memory : Nat → UInt8) : Nat → UInt8 :=
  fun byte => if p.toNat ≤ byte ∧ byte < p.toNat + nbytes.toNat then value else memory byte

section

variable {Heap : Type} (allocator : Allocator Heap)

/-- A call of the allocator. -/
def request (wanted : Request) : Prog (Machine Heap) UInt32 := fun machine =>
  match allocator.answer wanted machine.heap with
  | .ok block heap =>
      .ok block.addr { machine with heap := heap, given := machine.given ++ [⟨wanted, block⟩] }
  | .error stop heap => .error stop { machine with heap := heap }

def kmalloc (nbytes : UInt32) : Prog (Machine Heap) UInt32 := request allocator (.plain nbytes)

def kmallocAligned (nbytes alignment : UInt32) : Prog (Machine Heap) UInt32 :=
  request allocator (.aligned nbytes alignment)

def mmuPtAllocAt (addr nbytes : UInt32) : Prog (Machine Heap) UInt32 := do
  Prog.assertThat (isAlignedPtr addr 14) "must be 14-bit aligned!"
  let pt := addr
  let n := 4096 * SIZEOF_FLD
  Prog.assertThat (nbytes == n) "only handing full allocation"
  modify fun machine => { machine with memory := memset pt 0 n machine.memory }
  pure pt

def mmuPtAlloc (n : UInt32) : Prog (Machine Heap) UInt32 := do
  Prog.assertThat (n == 4096) "we only handling a fully-populated page table right now"
  let nbytes := 4096 * SIZEOF_FLD
  let pt ← kmallocAligned allocator n ((1 : UInt32) <<< 14)
  Prog.assertThat (isAlignedPtr pt 14) "must be 14-bit aligned!"
  mmuPtAllocAt pt nbytes

inductive Call where
  | kmalloc (nbytes : UInt32)
  | kmallocAligned (nbytes alignment : UInt32)
  | mmuPtAlloc (n : UInt32)
  deriving DecidableEq, Repr

def call : Call → Prog (Machine Heap) Unit
  | .kmalloc nbytes => do
      let _ ← kmalloc allocator nbytes
  | .kmallocAligned nbytes alignment => do
      let _ ← kmallocAligned allocator nbytes alignment
  | .mmuPtAlloc n => do
      let place := (← get).given.length
      let pt ← mmuPtAlloc allocator n
      modify fun machine => { machine with tables := machine.tables ++ [(pt, place)] }

def runCalls : List Call → Prog (Machine Heap) Unit
  | [] => pure ()
  | first :: rest => do
      call allocator first
      runCalls rest

end

/-! ## The memory of a page table -/

/-- The memory that `mmu_pt_alloc_at` zeroes. -/
def tableAt (pt : UInt32) : Block := ⟨pt, 4096 * 4⟩

variable {Heap : Type} {allocator : Allocator Heap}

theorem mmuPtAllocAt_ok {addr nbytes pt : UInt32} {before after : Machine Heap}
    (ran : mmuPtAllocAt addr nbytes before = .ok pt after) :
    pt = addr ∧
      after = { before with memory := memset addr 0 (4096 * SIZEOF_FLD) before.memory } := by
  obtain ⟨_, _, aligned, checked⟩ := Prog.ok_of_bind_ok ran
  obtain ⟨-, rfl⟩ := Prog.holds_of_assertThat_ok aligned
  obtain ⟨_, _, size, zeroed⟩ := Prog.ok_of_bind_ok checked
  obtain ⟨-, rfl⟩ := Prog.holds_of_assertThat_ok size
  obtain ⟨rfl, rfl⟩ := EStateM.Result.ok.inj zeroed
  exact ⟨rfl, rfl⟩

/-- Exactly the bytes of the table are zeroed. -/
theorem mmuPtAllocAt_zeroes {addr nbytes pt : UInt32} {before after : Machine Heap}
    (ran : mmuPtAllocAt addr nbytes before = .ok pt after) (byte : Nat) :
    after.memory byte = if (tableAt pt).Has byte then 0 else before.memory byte := by
  obtain ⟨rfl, rfl⟩ := mmuPtAllocAt_ok ran
  rfl

/-! ## Runs of calls -/

/-- The blocks answer the requests, and each table was made of a block of its
own, for which 4096 bytes were requested. -/
structure Inv (allocator : Allocator Heap) (start : Heap) (machine : Machine Heap) : Prop where
  served : allocator.Served start machine.given machine.heap
  ofBlock : ∀ table ∈ machine.tables, ∃ block : Block, block.addr = table.1 ∧
    machine.given[table.2]? = some ⟨.aligned 4096 16384, block⟩
  places : machine.tables.Pairwise fun left right => left.2 ≠ right.2

/-- What a call of the allocator does. -/
theorem request_ok {wanted : Request} {before after : Machine Heap} {p : UInt32}
    (ran : request allocator wanted before = .ok p after) :
    ∃ block heap, allocator.answer wanted before.heap = .ok block heap ∧ p = block.addr ∧
      after = { before with heap := heap, given := before.given ++ [⟨wanted, block⟩] } := by
  rw [request] at ran
  split at ran
  · rename_i block heap answered
    obtain ⟨rfl, rfl⟩ := EStateM.Result.ok.inj ran
    exact ⟨block, heap, answered, rfl, rfl⟩
  · cases ran

/-- What a call of `mmu_pt_alloc` does. -/
theorem mmuPtAlloc_ok {n pt : UInt32} {before after : Machine Heap}
    (ran : mmuPtAlloc allocator n before = .ok pt after) :
    ∃ block heap, allocator.answer (.aligned 4096 16384) before.heap = .ok block heap ∧
      pt = block.addr ∧
      after = { before with
        heap := heap
        memory := memset pt 0 (4096 * SIZEOF_FLD) before.memory
        given := before.given ++ [⟨.aligned 4096 16384, block⟩] } := by
  obtain ⟨_, _, full, checked⟩ := Prog.ok_of_bind_ok ran
  obtain ⟨entries, rfl⟩ := Prog.holds_of_assertThat_ok full
  obtain rfl := beq_iff_eq.mp entries
  obtain ⟨p, middle, requested, answered⟩ := Prog.ok_of_bind_ok checked
  obtain ⟨block, heap, answer, rfl, rfl⟩ := request_ok requested
  obtain ⟨_, _, aligned, zeroed⟩ := Prog.ok_of_bind_ok answered
  obtain ⟨-, rfl⟩ := Prog.holds_of_assertThat_ok aligned
  obtain ⟨rfl, rfl⟩ := mmuPtAllocAt_ok zeroed
  exact ⟨block, heap, answer, rfl, rfl⟩

/-- A grant stays in its place. -/
theorem given_append {given : List Grant} {place : Nat} {grant : Grant}
    (found : given[place]? = some grant) (more : List Grant) :
    (given ++ more)[place]? = some grant := by
  rw [List.getElem?_append_left (List.getElem?_eq_some_iff.mp found).1, found]

theorem request_inv {start : Heap} {wanted : Request} {before after : Machine Heap} {p : UInt32}
    (inv : Inv allocator start before) (ran : request allocator wanted before = .ok p after) :
    Inv allocator start after := by
  obtain ⟨block, heap, answered, -, rfl⟩ := request_ok ran
  refine ⟨inv.served.request answered, ?_, inv.places⟩
  intro table mem
  obtain ⟨own, addr, found⟩ := inv.ofBlock table mem
  exact ⟨own, addr, given_append found _⟩

theorem call_inv {start : Heap} {made : Call} {before after : Machine Heap}
    (inv : Inv allocator start before) (ran : call allocator made before = .ok () after) :
    Inv allocator start after := by
  cases made with
  | kmalloc nbytes =>
      obtain ⟨_, _, requested, returned⟩ := Prog.ok_of_bind_ok ran
      obtain ⟨-, rfl⟩ := EStateM.Result.ok.inj returned
      exact request_inv inv requested
  | kmallocAligned nbytes alignment =>
      obtain ⟨_, _, requested, returned⟩ := Prog.ok_of_bind_ok ran
      obtain ⟨-, rfl⟩ := EStateM.Result.ok.inj returned
      exact request_inv inv requested
  | mmuPtAlloc n =>
      obtain ⟨_, _, looked, made⟩ := Prog.ok_of_bind_ok ran
      obtain ⟨rfl, rfl⟩ := EStateM.Result.ok.inj looked
      obtain ⟨pt, middle, allocated, noted⟩ := Prog.ok_of_bind_ok made
      obtain ⟨-, rfl⟩ := EStateM.Result.ok.inj noted
      obtain ⟨block, heap, answered, rfl, rfl⟩ := mmuPtAlloc_ok allocated
      constructor
      · exact inv.served.request answered
      · intro table mem
        rcases List.mem_append.mp mem with old | new
        · obtain ⟨own, addr, found⟩ := inv.ofBlock table old
          exact ⟨own, addr, given_append found _⟩
        · obtain rfl := List.mem_singleton.mp new
          exact ⟨block, rfl, List.getElem?_concat_length⟩
      · rw [List.pairwise_append]
        refine ⟨inv.places, List.pairwise_singleton _ _, ?_⟩
        intro table old other new
        obtain rfl := List.mem_singleton.mp new
        obtain ⟨own, -, found⟩ := inv.ofBlock table old
        exact Nat.ne_of_lt (List.getElem?_eq_some_iff.mp found).1

theorem runCalls_inv {start : Heap} {calls : List Call} {before after : Machine Heap}
    (inv : Inv allocator start before) (ran : runCalls allocator calls before = .ok () after) :
    Inv allocator start after := by
  induction calls generalizing before with
  | nil =>
      obtain ⟨-, rfl⟩ := EStateM.Result.ok.inj ran
      exact inv
  | cons first rest ih =>
      obtain ⟨_, middle, called, run⟩ := Prog.ok_of_bind_ok ran
      exact ih (call_inv inv called) run

theorem boot_inv (start : Heap) (memory : Nat → UInt8) :
    Inv allocator start (.boot start memory) where
  served := .nothing
  ofBlock _ mem := absurd mem List.not_mem_nil
  places := List.Pairwise.nil

/-! ## Tables and other blocks -/

/-- No table meets a block that is not its own, or another table. -/
structure Apart (machine : Machine Heap) : Prop where
  blocks : ∀ table ∈ machine.tables, ∀ place grant, place ≠ table.2 →
    machine.given[place]? = some grant → (tableAt table.1).Disjoint grant.block
  tables : machine.tables.Pairwise fun left right =>
    (tableAt left.1).Disjoint (tableAt right.1)

/-- No block that is not empty begins in the 12288 bytes behind those that were
requested for a table. -/
def NothingBehind (machine : Machine Heap) : Prop :=
  ∀ table ∈ machine.tables, ∀ grant ∈ machine.given, 0 < grant.block.size →
    ¬ (table.1.toNat + 4096 ≤ grant.block.addr.toNat ∧
      grant.block.addr.toNat < table.1.toNat + 16384)

/-- The block of a table is aligned and has the bytes that were requested. -/
theorem Inv.own_block {start : Heap} {machine : Machine Heap} (inv : Inv allocator start machine)
    (contract : allocator.Contract start) {table : UInt32 × Nat} (mem : table ∈ machine.tables) :
    ∃ grant, machine.given[table.2]? = some grant ∧ grant.block.addr = table.1 ∧
      4096 ≤ grant.block.size ∧ 16384 ∣ table.1.toNat := by
  obtain ⟨block, addr, found⟩ := inv.ofBlock table mem
  have fulfilled := contract.fulfilled inv.served _ (List.mem_of_getElem? found)
  rw [← addr]
  exact ⟨_, found, rfl, fulfilled⟩

theorem Inv.tables_apart {start : Heap} {machine : Machine Heap}
    (inv : Inv allocator start machine) (contract : allocator.Contract start) :
    machine.tables.Pairwise fun left right =>
      (tableAt left.1).Disjoint (tableAt right.1) := by
  refine inv.places.imp_of_mem ?_
  intro left right memLeft memRight differ
  obtain ⟨one, found, addr, size, aligned⟩ := inv.own_block contract memLeft
  obtain ⟨other, found', addr', size', aligned'⟩ := inv.own_block contract memRight
  have order := (contract.apart_of_ne inv.served found found' differ).order
    (by omega) (by omega)
  rw [addr, addr'] at order
  intro byte both
  simp only [Block.Has, tableAt] at both
  omega

theorem Inv.blocks_apart {start : Heap} {machine : Machine Heap}
    (inv : Inv allocator start machine) (contract : allocator.Contract start)
    (nothing : NothingBehind machine) {table : UInt32 × Nat} (mem : table ∈ machine.tables)
    {place : Nat} {grant : Grant} (other : place ≠ table.2)
    (found : machine.given[place]? = some grant) : (tableAt table.1).Disjoint grant.block := by
  obtain ⟨own, foundOwn, addr, size, -⟩ := inv.own_block contract mem
  intro byte both
  simp only [Block.Has, tableAt] at both
  have positive : 0 < grant.block.size := by omega
  have order := (contract.apart_of_ne inv.served foundOwn found (Ne.symm other)).order
    (by omega) positive
  have behind := nothing table mem grant (List.mem_of_getElem? found) positive
  rw [addr] at order
  omega

theorem Inv.nothing_behind {start : Heap} {machine : Machine Heap}
    (inv : Inv allocator start machine) (apart : Apart machine) : NothingBehind machine := by
  intro table mem grant granted positive behind
  obtain ⟨place, found⟩ := List.mem_iff_getElem?.mp granted
  obtain ⟨own, addr, foundOwn⟩ := inv.ofBlock table mem
  have other : place ≠ table.2 := by
    rintro rfl
    obtain rfl := Option.some.inj (foundOwn.symm.trans found)
    rw [addr] at behind
    omega
  refine apart.blocks table mem place grant other found grant.block.addr.toNat ?_
  simp only [Block.Has, tableAt]
  omega

/-- Over an allocator that keeps its contract, tables share no memory exactly if
no block is placed behind the bytes that were requested for a table. -/
theorem mmu_pt_alloc_apart_iff {start : Heap} (contract : allocator.Contract start)
    {memory : Nat → UInt8} {calls : List Call} {machine : Machine Heap}
    (ran : runCalls allocator calls (.boot start memory) = .ok () machine) :
    Apart machine ↔ NothingBehind machine := by
  have inv := runCalls_inv (boot_inv start memory) ran
  constructor
  · exact inv.nothing_behind
  · intro nothing
    exact ⟨fun _ mem _ _ other found => inv.blocks_apart contract nothing mem other found,
      inv.tables_apart contract⟩

/-- A heap at 1 MB after eight bytes and a table were allocated. -/
def bytesThenTable : Machine Nat where
  heap := 0x105000
  memory := memset 0x104000 0 16384 fun _ => 0
  given := [⟨.plain 8, ⟨0x100000, 8⟩⟩, ⟨.aligned 4096 16384, ⟨0x104000, 4096⟩⟩]
  tables := [(0x104000, 1)]

theorem mmu_pt_alloc_apart_iff_of_bump : Apart bytesThenTable :=
  (mmu_pt_alloc_apart_iff (Allocator.bump_contract 0x100000)
    (rfl : runCalls Allocator.bump [.kmalloc 8, .mmuPtAlloc 4096] (.boot 0x100000 fun _ => 0) =
      .ok () bytesThenTable)).mpr (by unfold NothingBehind; decide)

/-- The same heap after a table and then four bytes were allocated. -/
def tableThenBytes : Machine Nat where
  heap := 0x101004
  memory := memset 0x100000 0 16384 fun _ => 0
  given := [⟨.aligned 4096 16384, ⟨0x100000, 4096⟩⟩, ⟨.plain 4, ⟨0x101000, 4⟩⟩]
  tables := [(0x100000, 0)]

/-- The four bytes lie inside of the table. -/
theorem mmu_pt_alloc_overlaps :
    ¬ ∀ (Heap : Type) (allocator : Allocator Heap) (start : Heap) (memory : Nat → UInt8)
      (calls : List Call) (machine : Machine Heap), allocator.Contract start →
      runCalls allocator calls (.boot start memory) = .ok () machine → Apart machine := by
  intro apart
  have tables := apart Nat Allocator.bump 0x100000 (fun _ => 0) [.mmuPtAlloc 4096, .kmalloc 4]
    tableThenBytes (Allocator.bump_contract _) rfl
  exact tables.blocks (0x100000, 0) List.mem_cons_self 1 _ (by decide) rfl 0x101000 (by decide)

end Cs140e.Vm
