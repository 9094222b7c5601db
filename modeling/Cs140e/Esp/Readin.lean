import Cs140e.Esp.Lex

/-!
# What `lex_readin` reads

Both lexers read in the same bytes: all data up to the next time the device
has none.  An implementation only has to show that it can store them.
-/

namespace Cs140e.Esp

open Cs140e.Library

/-- The bytes one `lex_readin` reads, and the answers of the device after it. -/
def burst : List Poll → List UInt8 × List Poll
  | [] => ([], [])
  | .quiet :: rest => ([], rest)
  | .data chunk :: rest => (chunk.bytes ++ (burst rest).1, (burst rest).2)

theorem arriving_burst (h : List Poll) : (burst h).1 ++ arriving (burst h).2 = arriving h := by
  induction h with
  | nil => rfl
  | cons poll rest ih =>
      cases poll with
      | quiet => rfl
      | data chunk => rw [burst, arriving_data, List.append_assoc, ih]

theorem arriving_skipQuiet {h rest : List Poll} (some : skipQuiet? h = some rest) :
    arriving rest = arriving h := by
  induction h with
  | nil => cases some
  | cons poll h ih =>
      cases poll with
      | quiet => exact ih some
      | data chunk => cases some; rfl

theorem arriving_of_skipQuiet_none {h : List Poll} (none : skipQuiet? h = none) :
    arriving h = [] := by
  induction h with
  | nil => rfl
  | cons poll h ih =>
      cases poll with
      | quiet => exact ih none
      | data chunk => cases none

theorem data_of_skipQuiet {h rest : List Poll} (some : skipQuiet? h = some rest) :
    ∃ chunk tail, rest = .data chunk :: tail := by
  induction h with
  | nil => cases some
  | cons poll h ih =>
      cases poll with
      | quiet => exact ih some
      | data chunk => cases some; exact ⟨chunk, h, rfl⟩

theorem burst_ne_nil {h rest : List Poll} (some : skipQuiet? h = some rest) :
    (burst rest).1 ≠ [] := by
  obtain ⟨chunk, tail, rfl⟩ := data_of_skipQuiet some
  exact List.append_ne_nil_of_left_ne_nil chunk.nonempty _

/-! ## Storing a burst -/

section

variable {B : Type}

theorem onBuf_of_ok {α : Type} {program : Prog B α} {buf after : B} {value : α}
    (returned : program buf = .ok value after) (h : List Poll) :
    onBuf program ⟨buf, h⟩ = .ok value ⟨after, h⟩ :=
  Prog.onPart_of_ok returned

theorem onBuf_of_error {α : Type} {program : Prog B α} {buf after : B} {stop : Stop}
    (stopped : program buf = .error stop after) (h : List Poll) :
    onBuf program ⟨buf, h⟩ = .error stop ⟨after, h⟩ :=
  Prog.onPart_of_error stopped

variable [LexBuf B]

/-- The buffer holds the bytes read in so far, and takes more up to a limit. -/
structure Storage (holds : B → List UInt8 → Prop) (limit : Nat) : Prop where
  nstream : ∀ {buf bytes}, holds buf bytes → LexBuf.lexNstream buf = .ok bytes.length buf
  pushN : ∀ {buf bytes more}, holds buf bytes → more ≠ [] →
    bytes.length + more.length ≤ limit →
    ∃ after, LexBuf.lexPushN more buf = .ok () after ∧ holds after (bytes ++ more)
  lexEmpty : ∀ {buf bytes}, holds buf bytes → LexBuf.lexEmpty buf = .ok (bytes.isEmpty) buf

variable {holds : B → List UInt8 → Prop} {limit : Nat}

theorem readBurst_ok (storage : Storage holds limit) {fuel : Nat} {h : List Poll}
    {bytes : List UInt8} {buf : B} (kept : holds buf bytes) (enough : h.length ≤ fuel)
    (data : ∃ chunk rest, h = .data chunk :: rest)
    (fits : bytes.length + (burst h).1.length ≤ limit) :
    ∃ after, readBurst fuel bytes.length ⟨buf, h⟩ =
        .ok (bytes.length + (burst h).1.length) ⟨after, (burst h).2⟩ ∧
      holds after (bytes ++ (burst h).1) := by
  induction fuel generalizing h bytes buf with
  | zero =>
      obtain ⟨chunk, rest, rfl⟩ := data
      cases enough
  | succ fuel ih =>
      obtain ⟨chunk, rest, rfl⟩ := data
      have lengths : (burst (.data chunk :: rest)).1.length =
          chunk.bytes.length + (burst rest).1.length := List.length_append
      rw [lengths] at fits
      obtain ⟨stored, pushed, keptAfter⟩ := storage.pushN kept chunk.nonempty (by omega)
      have counted : LexBuf.lexNstream stored = .ok (bytes.length + chunk.bytes.length) stored := by
        rw [storage.nstream keptAfter, List.length_append]
      have read : espRead ⟨buf, .data chunk :: rest⟩ = .ok chunk.bytes ⟨buf, rest⟩ := rfl
      have some : ¬ chunk.bytes.length = 0 := fun none =>
        chunk.nonempty (List.eq_nil_of_length_eq_zero none)
      have pushedLex : lexPushN chunk.bytes ⟨buf, rest⟩ = .ok () ⟨stored, rest⟩ :=
        onBuf_of_ok pushed rest
      have countedLex : lexNstream ⟨stored, rest⟩ =
          .ok (bytes.length + chunk.bytes.length) ⟨stored, rest⟩ := onBuf_of_ok counted rest
      have equal :
          (bytes.length + chunk.bytes.length == bytes.length + chunk.bytes.length) = true :=
        beq_self_eq_true _
      rw [readBurst, Prog.bind_of_ok read, if_neg some]
      change ∃ after, (lexPushN chunk.bytes >>= _) _ = _ ∧ _
      rw [Prog.bind_of_ok pushedLex, Prog.bind_of_ok countedLex,
        Prog.bind_of_ok (Prog.assertThat_of _ _ equal)]
      cases rest with
      | nil =>
          refine ⟨stored, ?_, ?_⟩
          · rw [lengths]
            rfl
          · rw [burst, burst, List.append_nil]
            exact keptAfter
      | cons poll rest =>
          cases poll with
          | quiet =>
              refine ⟨stored, ?_, ?_⟩
              · rw [lengths]
                rfl
              · rw [burst, burst, List.append_nil]
                exact keptAfter
          | data next =>
              have more : espHasDataTimeout ⟨stored, .data next :: rest⟩ =
                  .ok true ⟨stored, .data next :: rest⟩ := rfl
              obtain ⟨after, ran, holdsAfter⟩ := ih keptAfter (Nat.le_of_succ_le_succ enough)
                ⟨next, rest, rfl⟩ (by rw [List.length_append]; omega)
              refine ⟨after, ?_, ?_⟩
              · rw [Prog.bind_of_ok more, if_pos rfl, ← List.length_append, ran, lengths,
                  List.length_append, Nat.add_assoc]
                rfl
              · rw [List.append_assoc] at holdsAfter
                exact holdsAfter

theorem lexReadin_ok (storage : Storage holds limit) {h rest : List Poll} {buf : B}
    (kept : holds buf []) (data : skipQuiet? h = some rest)
    (fits : (burst rest).1.length ≤ limit) :
    ∃ after, lexReadin ⟨buf, h⟩ = .ok (burst rest).1.length ⟨after, (burst rest).2⟩ ∧
      holds after (burst rest).1 := by
  have empty : lexEmpty ⟨buf, h⟩ = .ok true ⟨buf, h⟩ := onBuf_of_ok (storage.lexEmpty kept) h
  have none : lexNstream ⟨buf, h⟩ = .ok 0 ⟨buf, h⟩ := onBuf_of_ok (storage.nstream kept) h
  have zero : ((0 : Nat) == 0) = true := rfl
  have waited : waitForData ⟨buf, h⟩ = .ok () ⟨buf, rest⟩ := by
    rw [waitForData, data]
  obtain ⟨after, ran, keptAfter⟩ := readBurst_ok storage kept (Nat.le_refl rest.length)
    (data_of_skipQuiet data) (by rwa [List.length_nil, Nat.zero_add])
  refine ⟨after, ?_, keptAfter⟩
  rw [List.length_nil, Nat.zero_add] at ran
  rw [lexReadin, Prog.bind_of_ok empty, Prog.bind_of_ok (Prog.assertThat_true _ _),
    Prog.bind_of_ok none, Prog.bind_of_ok (Prog.assertThat_of _ _ zero), Prog.bind_of_ok waited,
    Prog.bind_of_ok (Prog.get_apply _)]
  exact ran

theorem lexReadin_blocked (storage : Storage holds limit) {h : List Poll} {buf : B}
    (kept : holds buf []) (silent : skipQuiet? h = none) :
    lexReadin ⟨buf, h⟩ = .error .blocked ⟨buf, []⟩ := by
  have empty : lexEmpty ⟨buf, h⟩ = .ok true ⟨buf, h⟩ := onBuf_of_ok (storage.lexEmpty kept) h
  have none : lexNstream ⟨buf, h⟩ = .ok 0 ⟨buf, h⟩ := onBuf_of_ok (storage.nstream kept) h
  have zero : ((0 : Nat) == 0) = true := rfl
  have waited : waitForData ⟨buf, h⟩ = .error .blocked ⟨buf, []⟩ := by
    rw [waitForData, silent]
  rw [lexReadin, Prog.bind_of_ok empty, Prog.bind_of_ok (Prog.assertThat_true _ _),
    Prog.bind_of_ok none, Prog.bind_of_ok (Prog.assertThat_of _ _ zero), Prog.bind_of_error waited]

/-! ## Refilling -/

/-- Something is buffered: nothing happens. -/
theorem lexRefill_nonempty (storage : Storage holds limit) {h : List Poll} {buf : B}
    {bytes : List UInt8} (kept : holds buf bytes) (some : bytes ≠ []) :
    lexRefill ⟨buf, h⟩ = .ok () ⟨buf, h⟩ := by
  have empty : lexEmpty ⟨buf, h⟩ = .ok false ⟨buf, h⟩ := by
    have := storage.lexEmpty kept
    rw [List.isEmpty_eq_false_iff.mpr some] at this
    exact onBuf_of_ok this h
  rw [lexRefill, Prog.bind_of_ok empty]
  change (lexEmpty >>= _) _ = _
  rw [Prog.bind_of_ok empty]
  rfl

theorem lexRefill_ok (storage : Storage holds limit) {h rest : List Poll} {buf : B}
    (kept : holds buf []) (data : skipQuiet? h = some rest)
    (fits : (burst rest).1.length ≤ limit) :
    ∃ after, lexRefill ⟨buf, h⟩ = .ok () ⟨after, (burst rest).2⟩ ∧
      holds after (burst rest).1 := by
  have empty : lexEmpty ⟨buf, h⟩ = .ok true ⟨buf, h⟩ := onBuf_of_ok (storage.lexEmpty kept) h
  obtain ⟨after, ran, keptAfter⟩ := lexReadin_ok storage kept data fits
  have filled : lexEmpty ⟨after, (burst rest).2⟩ = .ok false ⟨after, (burst rest).2⟩ := by
    have := storage.lexEmpty keptAfter
    rw [List.isEmpty_eq_false_iff.mpr (burst_ne_nil data)] at this
    exact onBuf_of_ok this _
  refine ⟨after, ?_, keptAfter⟩
  rw [lexRefill, Prog.bind_of_ok empty, if_pos rfl, Prog.bind_of_ok ran]
  change (lexEmpty >>= _) _ = _
  rw [Prog.bind_of_ok filled]
  rfl

theorem lexRefill_blocked (storage : Storage holds limit) {h : List Poll} {buf : B}
    (kept : holds buf []) (silent : skipQuiet? h = none) :
    lexRefill ⟨buf, h⟩ = .error .blocked ⟨buf, []⟩ := by
  have empty : lexEmpty ⟨buf, h⟩ = .ok true ⟨buf, h⟩ := onBuf_of_ok (storage.lexEmpty kept) h
  rw [lexRefill, Prog.bind_of_ok empty, if_pos rfl,
    Prog.bind_of_error (lexReadin_blocked storage kept silent)]

end

end Cs140e.Esp
