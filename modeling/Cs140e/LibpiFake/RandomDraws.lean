import Cs140e.LibpiFake.Random

/-!
# Runs of `pi_random_r`

`Ready` says that the pointers of a generator with a table are those the code
keeps: the front pointer is `rand_sep` slots ahead of the rear pointer around the
table.  A draw moves the window that the table holds by one place.
-/

namespace Cs140e.LibpiFake.Random

open Library

def degree (type : Nat) : Nat := degrees.getD type 0
def separation (type : Nat) : Nat := seps.getD type 0

/-- The generators with a table. -/
def Tabled (type : Nat) : Prop := 0 < type ∧ type < maxTypes

theorem Tabled.cases {type : Nat} (tabled : Tabled type) :
    type = 1 ∨ type = 2 ∨ type = 3 ∨ type = 4 := by
  obtain ⟨positive, small⟩ := tabled
  rcases type with _ | _ | _ | _ | _ | type
  · exact absurd positive (Nat.lt_irrefl 0)
  · exact .inl rfl
  · exact .inr (.inl rfl)
  · exact .inr (.inr (.inl rfl))
  · exact .inr (.inr (.inr rfl))
  · exact absurd small (by simp [maxTypes])

theorem Tabled.separation_pos {type : Nat} (tabled : Tabled type) : 0 < separation type := by
  rcases tabled.cases with rfl | rfl | rfl | rfl <;> decide

theorem Tabled.separation_lt {type : Nat} (tabled : Tabled type) :
    separation type < degree type := by
  rcases tabled.cases with rfl | rfl | rfl | rfl <;> decide

theorem Tabled.type_ne {type : Nat} (tabled : Tabled type) : BitVec.ofNat 32 type ≠ 0#32 := by
  rcases tabled.cases with rfl | rfl | rfl | rfl <;> decide

/-- The slot of the front pointer. -/
def frontOf (type rear : Nat) : Nat := (rear + separation type) % degree type

/-- The pointers and the fields of a generator whose rear pointer is at a slot. -/
structure Ready (data : PiRandomData) (type rear : Nat) : Prop where
  tabled : Tabled type
  type_eq : data.randType = BitVec.ofNat 32 type
  deg_eq : data.randDeg = degree type
  sep_eq : data.randSep = separation type
  end_eq : data.endPtr = data.state + degree type
  rear_lt : rear < degree type
  rptr_eq : data.rptr = data.state + rear
  fptr_eq : data.fptr = data.state + frontOf type rear

theorem Ready.unique {first second : PiRandomData} {type rear : Nat}
    (left : Ready first type rear) (right : Ready second type rear)
    (state : first.state = second.state) : first = second := by
  obtain ⟨-, type_eq, deg_eq, sep_eq, end_eq, -, rptr_eq, fptr_eq⟩ := left
  obtain ⟨-, type_eq', deg_eq', sep_eq', end_eq', -, rptr_eq', fptr_eq'⟩ := right
  cases first
  cases second
  simp_all

/-- The slots of a table. -/
def slots (words : Words) (state : Nat) : Nat → BitVec 32 := fun slot => words (state + slot)

theorem slots_update (words : Words) (state slot : Nat) (word : BitVec 32) :
    slots (Function.update words (state + slot) word) state =
      Function.update (slots words state) slot word := by
  funext other
  by_cases same : other = slot
  · simp [slots, same]
  · simp [slots, same]

/-- The window that the table behind `state` holds when the rear pointer is at a slot. -/
def window (words : Words) (state type rear : Nat) : Nat → BitVec 32 := fun i =>
  slots words state ((frontOf type rear + i) % degree type)

theorem frontOf_lt {type : Nat} (tabled : Tabled type) (rear : Nat) :
    frontOf type rear < degree type :=
  Nat.mod_lt _ (Nat.lt_trans tabled.separation_pos tabled.separation_lt)

/-- Going on from the front slot leads round to the rear slot. -/
theorem rear_of_front {type rear : Nat} (tabled : Tabled type) (low : rear < degree type) :
    (frontOf type rear + (degree type - separation type)) % degree type = rear := by
  have less := tabled.separation_lt
  rw [frontOf, Nat.mod_add_mod, show rear + separation type + (degree type - separation type) =
    rear + degree type by omega, Nat.add_mod_right, Nat.mod_eq_of_lt low]

theorem frontOf_succ (type rear : Nat) :
    frontOf type ((rear + 1) % degree type) = (frontOf type rear + 1) % degree type := by
  rw [frontOf, frontOf, Nat.mod_add_mod, Nat.mod_add_mod, Nat.add_right_comm]

/-! ## One draw -/

/-- The front pointer wraps in one call and the rear pointer in another, which the code
relies on. -/
theorem Ready.turn {data : PiRandomData} {type rear : Nat} (ready : Ready data type rear) :
    Ready data.turn type ((rear + 1) % degree type) ∧ data.turn.state = data.state := by
  have positive := ready.tabled.separation_pos
  have less := ready.tabled.separation_lt
  have front := frontOf_lt ready.tabled rear
  have low := ready.rear_lt
  have next := frontOf_succ type rear
  have place := rear_of_front ready.tabled low
  have rearNext : (rear + 1) % degree type < degree type := Nat.mod_lt _ (by omega)
  unfold PiRandomData.turn
  by_cases wraps : data.endPtr ≤ data.fptr + 1
  · rw [if_pos wraps]
    rw [ready.end_eq, ready.fptr_eq] at wraps
    have last : frontOf type rear = degree type - 1 := by omega
    have inside : rear + 1 < degree type := by
      rw [last, show degree type - 1 + (degree type - separation type) =
        degree type - 1 - separation type + degree type by omega, Nat.add_mod_right,
        Nat.mod_eq_of_lt (by omega)] at place
      omega
    have zero : frontOf type ((rear + 1) % degree type) = 0 := by
      rw [next, last, Nat.sub_add_cancel (by omega), Nat.mod_self]
    refine ⟨⟨ready.tabled, ready.type_eq, ready.deg_eq, ready.sep_eq, ready.end_eq, rearNext,
      ?_, ?_⟩, rfl⟩
    · rw [Nat.mod_eq_of_lt inside]
      exact congrArg (· + 1) ready.rptr_eq
    · rw [zero]
      rfl
  · rw [if_neg wraps]
    rw [ready.end_eq, ready.fptr_eq] at wraps
    have moved : data.fptr + 1 = data.state + frontOf type ((rear + 1) % degree type) := by
      rw [next, Nat.mod_eq_of_lt (by omega), ready.fptr_eq]
      rfl
    by_cases rearWraps : data.endPtr ≤ data.rptr + 1
    · simp only [rearWraps, if_true]
      rw [ready.end_eq, ready.rptr_eq] at rearWraps
      have zero : (rear + 1) % degree type = 0 := by
        rw [show rear + 1 = degree type by omega, Nat.mod_self]
      refine ⟨⟨ready.tabled, ready.type_eq, ready.deg_eq, ready.sep_eq, ready.end_eq, rearNext,
        ?_, moved⟩, trivial⟩
      rw [zero]
      rfl
    · simp only [rearWraps, if_false]
      rw [ready.end_eq, ready.rptr_eq] at rearWraps
      refine ⟨⟨ready.tabled, ready.type_eq, ready.deg_eq, ready.sep_eq, ready.end_eq, rearNext,
        ?_, moved⟩, trivial⟩
      rw [Nat.mod_eq_of_lt (by omega)]
      exact congrArg (· + 1) ready.rptr_eq

/-- A generator whose table behind `state` holds a window. -/
structure Running (s : World) (state type rear : Nat) (items : Nat → BitVec 32) : Prop where
  ready : Ready s.data type rear
  state_eq : s.data.state = state
  holds : Lagged.Holds (degree type) (slots s.words state) (frontOf type rear) items

/-- The words of the table. -/
def InTable (state type p : Nat) : Prop := state ≤ p ∧ p < state + degree type

instance (state type p : Nat) : Decidable (InTable state type p) :=
  inferInstanceAs (Decidable (_ ∧ _))

/-- The sum that a draw makes of the words under both pointers is the next item. -/
theorem Running.sum {s : World} {state type rear : Nat} {items : Nat → BitVec 32}
    (running : Running s state type rear items) :
    s.words s.data.fptr + s.words s.data.rptr =
      Lagged.stream (degree type) (separation type) items (degree type) := by
  obtain ⟨ready, rfl, holds⟩ := running
  have positive := ready.tabled.separation_pos
  have less := ready.tabled.separation_lt
  have first : s.words s.data.fptr = items 0 := by
    have slot := holds 0 (by omega)
    rw [Nat.add_zero, Nat.mod_eq_of_lt (frontOf_lt ready.tabled rear)] at slot
    rw [ready.fptr_eq]
    exact slot
  have second : s.words s.data.rptr = items (degree type - separation type) := by
    have slot := holds (degree type - separation type) (by omega)
    rw [rear_of_front ready.tabled ready.rear_lt] at slot
    rw [ready.rptr_eq]
    exact slot
  have item := Lagged.stream_add items positive less 0
  rw [Nat.zero_add, Nat.zero_add, Lagged.stream_of_lt items (show 0 < degree type by omega),
    Lagged.stream_of_lt items (show degree type - separation type < degree type by omega)] at item
  rw [first, second, item]

theorem Running.next {s : World} {state type rear : Nat} {items : Nat → BitVec 32}
    (running : Running s state type rear items) :
    (draw s).1 =
        chucked (Lagged.stream (degree type) (separation type) items (degree type)) ∧
      Running (draw s).2 state type ((rear + 1) % degree type)
        (Lagged.advance (degree type) (separation type) items) ∧
      ∀ p, ¬InTable state type p → (draw s).2.words p = s.words p := by
  have sum := running.sum
  obtain ⟨ready, rfl, holds⟩ := running
  have front := frontOf_lt ready.tabled rear
  have tabled : s.data.randType ≠ 0#32 := ready.type_eq ▸ ready.tabled.type_ne
  obtain ⟨turned, stays⟩ := ready.turn
  have moved := holds.step ready.tabled.separation_pos ready.tabled.separation_lt front
  have value : slots s.words s.data.state (frontOf type rear) + slots s.words s.data.state rear =
      s.words s.data.fptr + s.words s.data.rptr := by
    rw [ready.fptr_eq, ready.rptr_eq]
    rfl
  rw [rear_of_front ready.tabled ready.rear_lt, value, ← slots_update, ← ready.fptr_eq] at moved
  unfold draw
  rw [if_neg tabled]
  refine ⟨congrArg chucked sum, ⟨turned, stays, ?_⟩, ?_⟩
  · rw [frontOf_succ]
    exact moved
  · intro p outside
    have other : p ≠ s.data.fptr := by
      rintro rfl
      rw [ready.fptr_eq] at outside
      exact outside ⟨Nat.le_add_right _ _, Nat.add_lt_add_left front _⟩
    exact Function.update_of_ne other _ _

/-! ## Runs -/

/-- The world after `k` calls of `pi_random_r`. -/
def afterDraws (s : World) (k : Nat) : World := (fun s => (piRandomR false false s).2)^[k] s

/-- What the call number `k` returns and stores, counted from zero. -/
def drawn (s : World) (k : Nat) : Int × Option (BitVec 32) :=
  (piRandomR false false (afterDraws s k)).1

theorem Running.run {s : World} {state type rear : Nat} {items : Nat → BitVec 32}
    (running : Running s state type rear items) (k : Nat) :
    Running (afterDraws s k) state type ((rear + k) % degree type)
        ((Lagged.advance (degree type) (separation type))^[k] items) ∧
      ∀ p, ¬InTable state type p → (afterDraws s k).words p = s.words p := by
  induction k with
  | zero =>
      refine ⟨?_, fun _ _ => rfl⟩
      rw [Nat.add_zero, Nat.mod_eq_of_lt running.ready.rear_lt]
      exact running
  | succ k ih =>
      obtain ⟨before, kept⟩ := ih
      obtain ⟨-, after, same⟩ := before.next
      have last : afterDraws s (k + 1) = (draw (afterDraws s k)).2 :=
        Function.iterate_succ_apply' _ k s
      rw [last, Function.iterate_succ_apply', ← Nat.add_assoc, ← Nat.mod_add_mod]
      exact ⟨after, fun p outside => (same p outside).trans (kept p outside)⟩

theorem Running.result {s : World} {state type rear : Nat} {items : Nat → BitVec 32}
    (running : Running s state type rear items) (k : Nat) :
    drawn s k = (0, some (chucked
      (Lagged.stream (degree type) (separation type) items (degree type + k)))) := by
  obtain ⟨before, -⟩ := running.run k
  obtain ⟨result, -, -⟩ := before.next
  have value : drawn s k = (0, some (draw (afterDraws s k)).1) := rfl
  rw [value, result, Lagged.stream_advance, Nat.add_comm k]

theorem Ready.running {s : World} {type rear : Nat} (ready : Ready s.data type rear) :
    Running s s.data.state type rear (window s.words s.data.state type rear) :=
  ⟨ready, rfl, fun _ _ => rfl⟩

/-- Every run of `pi_random_r` follows the recurrence of its trinomial, keeps the two pointers
inside the table and at their distance, and writes nothing outside the table. -/
theorem pi_random_r_follows_recurrence (s : World) (type rear : Nat)
    (ready : Ready s.data type rear) (k : Nat) :
    drawn s k = (0, some (chucked (Lagged.stream (degree type) (separation type)
        (window s.words s.data.state type rear) (degree type + k)))) ∧
      Ready (afterDraws s k).data type ((rear + k) % degree type) ∧
      (afterDraws s k).data.state = s.data.state ∧
      ∀ p, ¬InTable s.data.state type p → (afterDraws s k).words p = s.words p := by
  obtain ⟨after, kept⟩ := ready.running.run k
  exact ⟨ready.running.result k, after.ready, after.state_eq, kept⟩

/-- A generator with 32 bytes of state. -/
def smallWorld : World where
  words := fun p => BitVec.ofNat 32 p
  data :=
    { fptr := 4, rptr := 1, state := 1, randType := 1#32, randDeg := 7, randSep := 3, endPtr := 8 }

theorem smallWorld_ready : Ready smallWorld.data 1 0 where
  tabled := by simp [Tabled, maxTypes]
  type_eq := rfl
  deg_eq := rfl
  sep_eq := rfl
  end_eq := rfl
  rear_lt := by decide
  rptr_eq := rfl
  fptr_eq := rfl

theorem pi_random_r_follows_recurrence_small :
    drawn smallWorld 1 = (0, some 3#32) ∧ Ready (afterDraws smallWorld 1).data 1 1 := by
  obtain ⟨value, ready, -, -⟩ :=
    pi_random_r_follows_recurrence smallWorld 1 0 smallWorld_ready 1
  exact ⟨value.trans (by decide), ready⟩

end Cs140e.LibpiFake.Random
