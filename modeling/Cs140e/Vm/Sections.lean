import Cs140e.Vm.PageTable

/-!
# Mapping sections

A translation of `mmu_map_sections` in `mmu.c`.  What `mmu_map_section` does
behind its assertions is `unimplemented` in the repository and a parameter here,
as a program on the page table that returns.  The guards subtract one from a
number of bits, so they test the wrong bits of an address, and the mask for the
number of a section has one bit too many.
-/

namespace Cs140e.Vm

open Cs140e.Library

def OneMB : UInt32 := 1024 * 1024

def mmuSecBitsOnly (u : UInt32) : UInt32 := u &&& ~~~(((1 : UInt32) <<< 21) - 1)

def mmuSecNum (u : UInt32) : UInt32 := u >>> 20

/-- The page table, and the addresses that `mmu_map_section` was called with. -/
structure Mapping (Table : Type) where
  calls : List (UInt32 × UInt32)
  table : Table

section

variable {Table : Type} (fill : UInt32 → UInt32 → UInt32 → UInt32 → Prog Table UInt32)

def mmuMapSection (pt va pa dom : UInt32) : Prog (Mapping Table) UInt32 := do
  modify fun mapping => { mapping with calls := mapping.calls ++ [(va, pa)] }
  Prog.assertThat (dom < 16) "dom < 16"
  Prog.assertThat (isAligned va 20) "is_aligned(va, 20)"
  Prog.assertThat (isAligned pa 20) "is_aligned(pa, 20)"
  Prog.onPart Mapping.table (fun table mapping => { mapping with table }) (fill pt va pa dom)

/-- The loop of `mmu_map_sections`, with the rounds that are left. -/
def mapRounds (pt dom : UInt32) : Nat → UInt32 → UInt32 → Prog (Mapping Table) Unit
  | 0, _, _ => pure ()
  | left + 1, va, pa => do
      let _ ← mmuMapSection fill pt va pa dom
      mapRounds pt dom left (va + OneMB) (pa + OneMB)

def mmuMapSections (pt va pa nsec dom : UInt32) : Prog (Mapping Table) Unit := do
  Prog.assertThat (dom < 16) "dom < 16"
  Prog.assertThat (isAligned va 20) "is_aligned(va, 20)"
  Prog.assertThat (isAligned pa 20) "is_aligned(pa, 20)"
  mapRounds fill pt dom nsec.toNat va pa

end

/-! ## Masks -/

/-- The complement of a mask keeps an address that has none of its bits. -/
theorem and_not_eq_self_iff (u mask : UInt32) : u &&& ~~~mask = u ↔ u &&& mask = 0 := by
  constructor
  · intro kept
    rw [← kept, UInt32.and_assoc, UInt32.not_and_self, UInt32.and_zero]
  · intro none
    have split : u &&& mask ||| u &&& ~~~mask = u := by
      apply UInt32.toBitVec_inj.mp
      ext i
      simp [← Bool.and_or_distrib_left]
    rwa [none, UInt32.zero_or] at split

theorem and_mask_eq_zero_iff (u : UInt32) {k : Nat} {mask : UInt32}
    (low : mask.toNat = 2 ^ k - 1) : u &&& mask = 0 ↔ 2 ^ k ∣ u.toNat := by
  rw [← UInt32.toNat_inj, UInt32.toNat_and, low, Nat.and_two_pow_sub_one_eq_mod]
  exact Nat.dvd_iff_mod_eq_zero.symm

/-- `mmu_sec_bits_only` masks 21 bits. -/
theorem mmuSecBitsOnly_eq_iff (u : UInt32) : mmuSecBitsOnly u = u ↔ 2 ^ 21 ∣ u.toNat := by
  have mask : (((1 : UInt32) <<< 21) - 1).toNat = 2 ^ 21 - 1 := rfl
  unfold mmuSecBitsOnly
  rw [and_not_eq_self_iff, and_mask_eq_zero_iff u mask]

theorem toNat_mmuSecNum (u : UInt32) : (mmuSecNum u).toNat = u.toNat / 2 ^ 20 := by
  unfold mmuSecNum
  rw [UInt32.toNat_shiftRight, Nat.shiftRight_eq_div_pow]
  rfl

/-- `is_aligned(x, 20)` looks at the lowest five bits. -/
theorem isAligned_20_eq (x : UInt32) : isAligned x 20 = (x.toNat % 2 ^ 5 &&& 19 == 0) := by
  have low : x.toNat &&& 19 = x.toNat % 2 ^ 5 &&& 19 := by
    rw [← Nat.and_two_pow_sub_one_eq_mod, Nat.and_assoc]
    rfl
  unfold isAligned
  rw [Bool.eq_iff_iff, beq_iff_eq, beq_iff_eq, ← low, ← UInt32.toNat_inj, UInt32.toNat_and]
  rfl

/-! ## Going through the sections -/

/-- The address in round `i`. -/
def sectionAt (start : UInt32) (i : Nat) : UInt32 := start + UInt32.ofNat i * OneMB

theorem toNat_sectionAt (start : UInt32) (i : Nat) :
    (sectionAt start i).toNat = (start.toNat + i * 2 ^ 20) % 2 ^ 32 := by
  have size : OneMB.toNat = 2 ^ 20 := rfl
  unfold sectionAt
  rw [UInt32.toNat_add, UInt32.toNat_mul, UInt32.toNat_ofNat', size]
  omega

theorem sectionAt_zero (start : UInt32) : sectionAt start 0 = start := by
  apply UInt32.toNat_inj.mp
  have small := start.toNat_lt
  rw [toNat_sectionAt]
  omega

theorem sectionAt_succ (start : UInt32) (i : Nat) :
    sectionAt (start + OneMB) i = sectionAt start (i + 1) := by
  apply UInt32.toNat_inj.mp
  have next : (start + OneMB).toNat = (start.toNat + 2 ^ 20) % 2 ^ 32 := UInt32.toNat_add ..
  rw [toNat_sectionAt, toNat_sectionAt, next]
  omega

/-- A section further the guard tests the same bits. -/
theorem isAligned_next (start : UInt32) :
    isAligned (start + OneMB) 20 = isAligned start 20 := by
  have next : (start + OneMB).toNat = (start.toNat + 2 ^ 20) % 2 ^ 32 := UInt32.toNat_add ..
  have same : (start + OneMB).toNat % 2 ^ 5 = start.toNat % 2 ^ 5 := by omega
  rw [isAligned_20_eq, isAligned_20_eq, same]

theorem mmuSecNum_sectionAt (start : UInt32) (i : Nat) :
    (mmuSecNum (sectionAt start i)).toNat = ((mmuSecNum start).toNat + i) % 4096 := by
  have small := start.toNat_lt
  rw [toNat_mmuSecNum, toNat_mmuSecNum, toNat_sectionAt]
  omega

/-- What the assertions of `mmu_map_sections` test. -/
structure Asserted (va pa dom : UInt32) : Prop where
  dom_lt : dom < 16
  va_aligned : isAligned va 20 = true
  pa_aligned : isAligned pa 20 = true

theorem Asserted.next {va pa dom : UInt32} (asserted : Asserted va pa dom) :
    Asserted (va + OneMB) (pa + OneMB) dom := by
  obtain ⟨dom_lt, first, second⟩ := asserted
  rw [← isAligned_next] at first second
  exact ⟨dom_lt, first, second⟩

section

variable {Table : Type} {fill : UInt32 → UInt32 → UInt32 → UInt32 → Prog Table UInt32}
  {pt va pa dom : UInt32}

/-- The rest of `mmu_map_section` returns. -/
def Fills (fill : UInt32 → UInt32 → UInt32 → UInt32 → Prog Table UInt32) : Prop :=
  ∀ pt va pa dom table, ∃ pte after, fill pt va pa dom table = .ok pte after

theorem mmuMapSection_apply (fills : Fills fill) (asserted : Asserted va pa dom)
    (start : Mapping Table) :
    ∃ pte table, mmuMapSection fill pt va pa dom start =
      .ok pte ⟨start.calls ++ [(va, pa)], table⟩ := by
  obtain ⟨pte, table, filled⟩ := fills pt va pa dom start.table
  refine ⟨pte, table, ?_⟩
  rw [mmuMapSection, Prog.bind_of_ok (Prog.modify_apply _ _),
    Prog.bind_of_ok (Prog.assertThat_of _ _ (decide_eq_true asserted.dom_lt)),
    Prog.bind_of_ok (Prog.assertThat_of _ _ asserted.va_aligned),
    Prog.bind_of_ok (Prog.assertThat_of _ _ asserted.pa_aligned)]
  exact Prog.onPart_of_ok filled

/-- The calls of the loop, in their order. -/
def sectionCalls (va pa : UInt32) (n : Nat) : List (UInt32 × UInt32) :=
  (List.range n).map fun i => (sectionAt va i, sectionAt pa i)

theorem sectionCalls_succ (va pa : UInt32) (n : Nat) :
    sectionCalls va pa (n + 1) = (va, pa) :: sectionCalls (va + OneMB) (pa + OneMB) n := by
  simp [sectionCalls, List.range_succ_eq_map, sectionAt_zero, sectionAt_succ]

theorem sectionCalls_getElem? {n i : Nat} (inside : i < n) :
    (sectionCalls va pa n)[i]? = some (sectionAt va i, sectionAt pa i) := by
  simp [sectionCalls, inside]

theorem mapRounds_apply (fills : Fills fill) (asserted : Asserted va pa dom) (left : Nat)
    (start : Mapping Table) :
    ∃ table, mapRounds fill pt dom left va pa start =
      .ok () ⟨start.calls ++ sectionCalls va pa left, table⟩ := by
  induction left generalizing va pa start with
  | zero => exact ⟨start.table, by simp [mapRounds, sectionCalls]⟩
  | succ left ih =>
      obtain ⟨pte, middle, called⟩ := mmuMapSection_apply fills asserted start
      obtain ⟨table, ran⟩ := ih asserted.next ⟨start.calls ++ [(va, pa)], middle⟩
      refine ⟨table, ?_⟩
      rw [mapRounds, Prog.bind_of_ok called, ran, sectionCalls_succ, List.append_assoc]
      rfl

theorem mmuMapSections_apply (fills : Fills fill) (asserted : Asserted va pa dom) (nsec : UInt32)
    (start : Mapping Table) :
    ∃ table, mmuMapSections fill pt va pa nsec dom start =
      .ok () ⟨start.calls ++ sectionCalls va pa nsec.toNat, table⟩ := by
  rw [mmuMapSections, Prog.bind_of_ok (Prog.assertThat_of _ _ (decide_eq_true asserted.dom_lt)),
    Prog.bind_of_ok (Prog.assertThat_of _ _ asserted.va_aligned),
    Prog.bind_of_ok (Prog.assertThat_of _ _ asserted.pa_aligned)]
  exact mapRounds_apply fills asserted nsec.toNat start

end

/-! ## Whole megabytes -/

/-- The address of a section, `i` sections behind the first one. -/
structure WholeMegabyte (first : UInt32) (i : Nat) (address : UInt32) : Prop where
  multiple : 2 ^ 20 ∣ address.toNat
  number : (mmuSecNum address).toNat = ((mmuSecNum first).toNat + i) % 4096
  bits : mmuSecBitsOnly address = address

theorem wholeMegabyte_sectionAt_iff (first : UInt32) (i : Nat) :
    WholeMegabyte first i (sectionAt first i) ↔ 2 ^ 21 ∣ (sectionAt first i).toNat := by
  constructor
  · exact fun whole => (mmuSecBitsOnly_eq_iff _).mp whole.bits
  · intro even
    exact ⟨Nat.dvd_trans (Nat.pow_dvd_pow 2 (by decide)) even, mmuSecNum_sectionAt first i,
      (mmuSecBitsOnly_eq_iff _).mpr even⟩

/-- `mmu_map_sections` makes `nsec` calls of `mmu_map_section`, all of them with
the addresses of consecutive sections. -/
def MapsWholeMegabytes {Table : Type}
    (fill : UInt32 → UInt32 → UInt32 → UInt32 → Prog Table UInt32) (pt va pa nsec dom : UInt32)
    (start : Mapping Table) : Prop :=
  ∃ calls table, mmuMapSections fill pt va pa nsec dom start =
      .ok () ⟨start.calls ++ calls, table⟩ ∧
    calls.length = nsec.toNat ∧
      ∀ i vai pai, calls[i]? = some (vai, pai) → WholeMegabyte va i vai ∧ WholeMegabyte pa i pai

/-- Of two consecutive sections one is not a multiple of two megabytes. -/
theorem mapsWholeMegabytes_iff {Table : Type}
    {fill : UInt32 → UInt32 → UInt32 → UInt32 → Prog Table UInt32} (fills : Fills fill)
    {pt va pa nsec dom : UInt32} (asserted : Asserted va pa dom) (start : Mapping Table) :
    MapsWholeMegabytes fill pt va pa nsec dom start ↔
      nsec = 0 ∨ nsec = 1 ∧ 2 ^ 21 ∣ va.toNat ∧ 2 ^ 21 ∣ pa.toNat := by
  obtain ⟨table, ran⟩ : ∃ table, mmuMapSections fill pt va pa nsec dom start = .ok () _ :=
    mmuMapSections_apply fills asserted nsec start
  constructor
  · rintro ⟨calls, table', ran', -, whole⟩
    rw [ran] at ran'
    injection ran' with _ mapped
    injection mapped with same
    have same := List.append_cancel_left same
    subst same
    have even : ∀ i < nsec.toNat,
        2 ^ 21 ∣ (sectionAt va i).toNat ∧ 2 ^ 21 ∣ (sectionAt pa i).toNat := by
      intro i inside
      exact (whole i _ _ (sectionCalls_getElem? inside)).imp
        (wholeMegabyte_sectionAt_iff va i).mp (wholeMegabyte_sectionAt_iff pa i).mp
    rw [← UInt32.toNat_inj, ← UInt32.toNat_inj]
    rcases h : nsec.toNat with _ | _ | more
    · exact .inl rfl
    · obtain ⟨first, second⟩ := even 0 (by omega)
      rw [sectionAt_zero] at first second
      exact .inr ⟨rfl, first, second⟩
    · obtain ⟨first, -⟩ := even 0 (by omega)
      obtain ⟨next, -⟩ := even 1 (by omega)
      rw [toNat_sectionAt] at first next
      omega
  · intro few
    refine ⟨_, table, ran, by simp [sectionCalls], ?_⟩
    intro i vai pai called
    rcases few with rfl | ⟨rfl, first, second⟩
    · simp [sectionCalls] at called
    · cases i with
      | zero =>
          obtain ⟨rfl, rfl⟩ := Prod.mk.inj (Option.some.inj called)
          rw [wholeMegabyte_sectionAt_iff, wholeMegabyte_sectionAt_iff, sectionAt_zero,
            sectionAt_zero]
          exact ⟨first, second⟩
      | succ i => simp [sectionCalls] at called

/-! ## Page tables -/

/-- Only multiples of `2 ^ 14` are accepted for a page table. -/
def AcceptsAligned {Heap : Type} (addr nbytes : UInt32) (before : Machine Heap) : Prop :=
  ∀ pt after, mmuPtAllocAt addr nbytes before = .ok pt after → 2 ^ 14 ∣ addr.toNat

theorem mmuPtAllocAt_accepts {Heap : Type} {addr : UInt32} (aligned : isAlignedPtr addr 14 = true)
    (before : Machine Heap) :
    ∃ after, mmuPtAllocAt addr (4096 * SIZEOF_FLD) before = .ok addr after := by
  rw [mmuPtAllocAt, Prog.bind_of_ok (Prog.assertThat_of _ _ aligned),
    Prog.bind_of_ok (Prog.assertThat_of _ _ (beq_self_eq_true _)),
    Prog.bind_of_ok (Prog.modify_apply _ _)]
  exact ⟨_, rfl⟩

theorem acceptsAligned_iff {Heap : Type} (addr nbytes : UInt32) (before : Machine Heap) :
    AcceptsAligned addr nbytes before ↔
      addr &&& 13 ≠ 0 ∨ nbytes ≠ 16384 ∨ 2 ^ 14 ∣ addr.toNat := by
  have guard : isAlignedPtr addr 14 = true ↔ addr &&& 13 = 0 := beq_iff_eq
  constructor
  · intro accepts
    by_contra none
    simp only [not_or, not_not] at none
    obtain ⟨aligned, rfl, odd⟩ := none
    obtain ⟨after, accepted⟩ := mmuPtAllocAt_accepts (guard.mpr aligned) before
    exact odd (accepts addr after accepted)
  · intro either pt after accepted
    obtain ⟨_, _, aligned, checked⟩ := Prog.ok_of_bind_ok accepted
    obtain ⟨passed, -⟩ := Prog.holds_of_assertThat_ok aligned
    obtain ⟨_, _, size, -⟩ := Prog.ok_of_bind_ok checked
    obtain ⟨whole, -⟩ := Prog.holds_of_assertThat_ok size
    rcases either with other | other | multiple
    · exact absurd (guard.mp passed) other
    · exact absurd (beq_iff_eq.mp whole) other
    · exact multiple

/-- Under the assertions of `mmu_map_sections` its calls are made with whole
sections if and only if there is none, or one of two multiples of `2 ^ 21`; and an
address that passes the checks for a page table is a multiple of `2 ^ 14` if and only
if it does not pass them, because one of its bits 0, 2 and 3 is set or `nbytes` is
not 16384, or it is such a multiple anyway. -/
theorem map_sections_whole_iff {Table Heap : Type}
    {fill : UInt32 → UInt32 → UInt32 → UInt32 → Prog Table UInt32} (fills : Fills fill)
    {pt va pa nsec dom : UInt32} (asserted : Asserted va pa dom) (start : Mapping Table)
    (addr nbytes : UInt32) (before : Machine Heap) :
    (MapsWholeMegabytes fill pt va pa nsec dom start ∧ AcceptsAligned addr nbytes before) ↔
      (nsec = 0 ∨ nsec = 1 ∧ 2 ^ 21 ∣ va.toNat ∧ 2 ^ 21 ∣ pa.toNat) ∧
        (addr &&& 13 ≠ 0 ∨ nbytes ≠ 16384 ∨ 2 ^ 14 ∣ addr.toNat) :=
  and_congr (mapsWholeMegabytes_iff fills asserted start) (acceptsAligned_iff addr nbytes before)

/-- A rest of `mmu_map_section` that fills nothing in. -/
def fillNothing : UInt32 → UInt32 → UInt32 → UInt32 → Prog Unit UInt32 := fun _ _ _ _ => pure 0

theorem fillNothing_fills : Fills fillNothing := fun _ _ _ _ table => ⟨0, table, rfl⟩

theorem map_sections_whole_iff_of_one :
    MapsWholeMegabytes fillNothing 0x4000 0x200000 0x600000 1 0 ⟨[], ()⟩ ∧
      AcceptsAligned 0x4000 16384 (Machine.boot () fun _ => 0) :=
  (map_sections_whole_iff fillNothing_fills ⟨by decide, by decide, by decide⟩ _ _ _ _).mpr
    ⟨.inr ⟨rfl, by decide, by decide⟩, .inr (.inr (by decide))⟩

/-- The address 4 passes the guards of `mmu_map_sections`. -/
theorem map_sections_accepts_four :
    ¬ ∀ (Table Heap : Type) (fill : UInt32 → UInt32 → UInt32 → UInt32 → Prog Table UInt32)
      (pt va pa nsec dom : UInt32) (start : Mapping Table) (addr nbytes : UInt32)
      (before : Machine Heap), Fills fill → Asserted va pa dom →
        MapsWholeMegabytes fill pt va pa nsec dom start ∧ AcceptsAligned addr nbytes before := by
  intro all
  have asserted : Asserted 4 4 0 := ⟨by decide, by decide, by decide⟩
  have whole := (all Unit Unit fillNothing 0x4000 4 4 1 0 ⟨[], ()⟩ 0x4000 16384
    (Machine.boot () fun _ => 0) fillNothing_fills asserted).1
  rcases (mapsWholeMegabytes_iff fillNothing_fills asserted _).mp whole with none | ⟨-, even, -⟩
  · exact absurd none (by decide)
  · exact absurd even (by decide)

end Cs140e.Vm
