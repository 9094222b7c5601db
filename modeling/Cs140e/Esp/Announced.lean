import Cs140e.Esp.Receive

/-!
# The announced length of a message

`match_uint` adds up the digits of a numeral modulo 2^32, and only then does
`esp_is_recv` compare the number with the room in its buffer.
-/

namespace Cs140e.Esp

open Cs140e.Library

variable {γ : Type} {input rest : List UInt8} {e : EspT LexSimple γ}

/-! ## Storing the message -/

/-- With fewer bytes to come than announced the loop waits. -/
theorem Text.recvLoop_blocked {rounds i : Nat} {data text : List UInt8}
    (short : text.length < rounds) (room : i + rounds ≤ data.length) :
    ∃ after, Text.recvLoop rounds i data text = .error .blocked after := by
  induction rounds generalizing i data text with
  | zero => exact absurd short (Nat.not_lt_zero _)
  | succ rounds ih =>
      cases text with
      | nil => exact ⟨[], rfl⟩
      | cons c text =>
          have poked : (poke data i c : Prog (List UInt8) (List UInt8)) text =
              .ok (data.set i c) text := by
            rw [poke, if_pos (by omega)]
            rfl
          have room' : i + 1 + rounds ≤ (data.set i c).length := by
            rw [List.length_set]
            omega
          obtain ⟨after, blocked⟩ := ih (Nat.lt_of_succ_lt_succ short) room'
          exact ⟨after, by rw [Text.recvLoop, Prog.bind_of_ok (Input.next_cons c text),
            Prog.bind_of_ok poked, blocked]⟩

theorem Text.recvLoop_enough {rounds : Nat} {data text : List UInt8}
    (enough : rounds ≤ text.length) (room : rounds ≤ data.length) :
    ∃ stored after, Text.recvLoop rounds 0 data text = .ok stored after := by
  have payload : (text.take rounds).length = rounds := List.length_take_of_le enough
  have looped := Text.recvLoop_append [] (data.take rounds) (data.drop rounds) (text.take rounds)
    (text.drop rounds) (by rw [payload, List.length_take_of_le room])
  rw [List.nil_append, List.take_append_drop, List.take_append_drop, payload] at looped
  exact ⟨_, _, looped⟩

/-! ## What the comparison decides -/

/-- What `esp_is_recv` does behind a header: the number is the announced length
modulo 2^32. -/
inductive Announced (count : Nat) (maxbytes : UInt32) (rest : List UInt8) :
    Outcome (EspT LexSimple γ) Received → Prop where
  | refused {message : String} {after : EspT LexSimple γ}
      (outside : count = 0 ∨ maxbytes.toNat < count) :
      Announced count maxbytes rest (.error (.panic message) after)
  | received {received : Received} {after : EspT LexSimple γ} (inside : 1 ≤ count)
      (fits : count ≤ maxbytes.toNat) (enough : count ≤ rest.length)
      (same : received.nbytes.toNat = count) :
      Announced count maxbytes rest (.ok received after)
  | waiting {after : EspT LexSimple γ} (inside : 1 ≤ count) (fits : count ≤ maxbytes.toNat)
      (short : rest.length < count) : Announced count maxbytes rest (.error .blocked after)

theorem espIsRecv_announced {c d : List UInt8} (cDigits : ∀ b ∈ c, isdigit b = true)
    (cSome : c ≠ []) (dDigits : ∀ b ∈ d, isdigit b = true) (dSome : d ≠ [])
    (here : At input (ipdHeader c d ++ rest) e.l) (ch maxbytes : UInt32) {data : List UInt8}
    (room : maxbytes.toNat ≤ data.length) :
    Announced (Decimal.value d % 2 ^ 32) maxbytes rest (espIsRecv ch data maxbytes e) := by
  have noBlanks : ∀ b ∈ ([] : List UInt8), Text.isWsCh b = true := fun _ mem => nomatch mem
  have matched := Text.matchPart_ipdHeader noBlanks cDigits cSome dDigits dSome ch 0 rest
  rw [List.nil_append] at matched
  have header := onLex_agrees (e := e) (here.matchPart (ascii "+IPD,%u,%u:") [.uint ch, .uint 0])
  rw [matched] at header
  obtain ⟨_, ranHeader, l, rfl, there⟩ := header.right_of_ok
  generalize nbytesEq : UInt32.ofNat (Decimal.value d) = nbytes at ranHeader
  have count : nbytes.toNat = Decimal.value d % 2 ^ 32 := by
    rw [← nbytesEq, UInt32.toNat_ofNat']
  rw [espIsRecv, Prog.bind_of_ok ranHeader]
  change Announced _ _ _ ((Prog.assertThat (decide (nbytes > 0)) "nbytes>0" >>= _) _)
  by_cases positive : nbytes > 0
  · rw [Prog.bind_of_ok (Prog.assertThat_of _ _ (decide_eq_true positive))]
    have inside : 1 ≤ nbytes.toNat := UInt32.lt_iff_toNat_lt.mp positive
    by_cases large : nbytes > maxbytes
    · rw [if_pos large]
      refine .refused (.inr ?_)
      rw [← count]
      exact UInt32.lt_iff_toNat_lt.mp large
    · rw [if_neg large]
      have fits : nbytes.toNat ≤ maxbytes.toNat := by
        rw [gt_iff_lt, UInt32.lt_iff_toNat_lt] at large
        omega
      have payload := onLex_agrees (e := { e with l := l })
        (there.recvLoop nbytes.toNat 0 data)
      by_cases enough : nbytes.toNat ≤ rest.length
      · obtain ⟨stored, left, looped⟩ := Text.recvLoop_enough enough (Nat.le_trans fits room)
        rw [looped] at payload
        obtain ⟨after, ranPayload, _⟩ := payload.right_of_ok
        rw [Prog.bind_of_ok ranPayload]
        exact .received (count ▸ inside) (count ▸ fits) (count ▸ enough) count
      · have short := Nat.lt_of_not_le enough
        obtain ⟨left, looped⟩ := @Text.recvLoop_blocked _ 0 data _ short (by omega)
        rw [looped] at payload
        obtain ⟨after, blocked⟩ := payload.right_of_error
        rw [Prog.bind_of_error blocked]
        exact .waiting (count ▸ inside) (count ▸ fits) (count ▸ short)
  · have none : decide (nbytes > 0) = false := decide_eq_false positive
    have stopped : (Prog.assertThat (decide (nbytes > 0)) "nbytes>0" :
        Prog (EspT LexSimple γ) Unit) { e with l := l } =
          .error (.panic "nbytes>0") { e with l := l } := by
      rw [none]
      rfl
    rw [Prog.bind_of_error stopped]
    refine .refused (.inl ?_)
    rw [← count]
    rw [gt_iff_lt, UInt32.lt_iff_toNat_lt] at positive
    exact Nat.le_zero.mp (Nat.le_of_not_lt positive)

/-- A length that the buffer can hold is returned once the message is there, and
any other length is a panic. -/
def HonoursLength (length : Nat) (maxbytes : UInt32) (rest : List UInt8)
    (outcome : Outcome (EspT LexSimple γ) Received) : Prop :=
  if 1 ≤ length ∧ length ≤ maxbytes.toNat then
    if length ≤ rest.length then
      ∃ received after, outcome = .ok received after ∧ received.nbytes.toNat = length
    else ∃ after, outcome = .error .blocked after
  else ∃ message after, outcome = .error (.panic message) after

theorem Announced.honours_iff {length : Nat} {maxbytes : UInt32}
    {outcome : Outcome (EspT LexSimple γ) Received}
    (announced : Announced (length % 2 ^ 32) maxbytes rest outcome) :
    HonoursLength length maxbytes rest outcome ↔
      ¬ (2 ^ 32 ≤ length ∧ 1 ≤ length % 2 ^ 32 ∧ length % 2 ^ 32 ≤ maxbytes.toNat) := by
  have bound := maxbytes.toNat_lt
  have small : ∀ {n : Nat}, ¬ 2 ^ 32 ≤ n → n % 2 ^ 32 = n := fun few =>
    Nat.mod_eq_of_lt (Nat.lt_of_not_le few)
  rw [HonoursLength]
  cases announced with
  | refused outside =>
      have notBoth : ¬ (1 ≤ length ∧ length ≤ maxbytes.toNat) := fun both => by
        rw [small (by omega)] at outside
        omega
      rw [if_neg notBoth]
      exact ⟨fun _ => by omega, fun _ => ⟨_, _, rfl⟩⟩
  | received inside fits enough same =>
      by_cases wraps : 2 ^ 32 ≤ length
      · rw [if_neg (by omega)]
        refine ⟨?_, fun not => absurd ⟨wraps, inside, fits⟩ not⟩
        rintro ⟨_, _, panicked⟩
        cases panicked
      · rw [small wraps] at inside fits enough same
        rw [if_pos ⟨inside, fits⟩, if_pos enough]
        exact ⟨fun _ both => wraps both.1, fun _ => ⟨_, _, rfl, same⟩⟩
  | waiting inside fits short =>
      by_cases wraps : 2 ^ 32 ≤ length
      · rw [if_neg (by omega)]
        refine ⟨?_, fun not => absurd ⟨wraps, inside, fits⟩ not⟩
        rintro ⟨_, _, panicked⟩
        cases panicked
      · rw [small wraps] at inside fits short
        rw [if_pos ⟨inside, fits⟩, if_neg (Nat.not_le_of_lt short)]
        exact ⟨fun _ both => wraps both.1, fun _ => ⟨_, rfl⟩⟩

/-- For any two numerals and whatever comes behind the header, `esp_is_recv`
honours the announced length if and only if that length is no number from 2^32
on that looks like a message the buffer can hold. -/
theorem esp_is_recv_honours_length_iff {c d : List UInt8} (cDigits : ∀ b ∈ c, isdigit b = true)
    (cSome : c ≠ []) (dDigits : ∀ b ∈ d, isdigit b = true) (dSome : d ≠ [])
    (here : At input (ipdHeader c d ++ rest) e.l) (ch maxbytes : UInt32) {data : List UInt8}
    (room : maxbytes.toNat ≤ data.length) :
    HonoursLength (Decimal.value d) maxbytes rest (espIsRecv ch data maxbytes e) ↔
      ¬ (2 ^ 32 ≤ Decimal.value d ∧ 1 ≤ Decimal.value d % 2 ^ 32 ∧
        Decimal.value d % 2 ^ 32 ≤ maxbytes.toNat) :=
  (espIsRecv_announced cDigits cSome dDigits dSome here ch maxbytes room).honours_iff

/-- A header and a message, cut inside of the second numeral. -/
def announcedTwo : List Poll :=
  [.data ⟨ascii "+IPD,4,00", by decide, by decide⟩, .quiet,
    .data ⟨ascii "2:hi", by decide, by decide⟩]

theorem esp_is_recv_honours_length_iff_of_two :
    HonoursLength 2 4 (ascii "hi") (espIsRecv 7 [1, 1, 1, 1] 4
      (⟨⟨LexSimple.init, announcedTwo⟩, true, (), [], [], []⟩ : EspT LexSimple Unit)) := by
  have here : At (arriving announcedTwo) (ipdHeader (ascii "4") (ascii "002") ++ ascii "hi")
      ⟨LexSimple.init, announcedTwo⟩ := At.init (h := announcedTwo) (by decide)
  have room : (4 : UInt32).toNat ≤ ([1, 1, 1, 1] : List UInt8).length := by decide
  exact (esp_is_recv_honours_length_iff (by decide) (by decide) (by decide) (by decide)
    (e := ⟨⟨LexSimple.init, announcedTwo⟩, true, (), [], [], []⟩) here 7 4 room).mpr (by decide)

/-- A header that announces 2^32 + 1 bytes, and one byte. -/
def announcedHuge : List Poll :=
  [.data ⟨ascii "+IPD,0,4294967297:a", by decide, by decide⟩]

/-- It is taken for a message of one byte. -/
theorem huge_length_is_accepted :
    arriving announcedHuge = ipdHeader (ascii "0") (ascii "4294967297") ++ ascii "a" ∧
      Decimal.value (ascii "4294967297") = 4294967297 ∧
      returned? (espIsRecv 7 [1, 1, 1, 1] 4
        (⟨⟨LexSimple.init, announcedHuge⟩, true, (), [], [], []⟩ : EspT LexSimple Unit)) =
          some ⟨1, 0, [97, 1, 1, 1]⟩ ∧
      ¬ HonoursLength 4294967297 4 (ascii "a") (espIsRecv 7 [1, 1, 1, 1] 4
        (⟨⟨LexSimple.init, announcedHuge⟩, true, (), [], [], []⟩ : EspT LexSimple Unit)) := by
  have returned : returned? (espIsRecv 7 [1, 1, 1, 1] 4
      (⟨⟨LexSimple.init, announcedHuge⟩, true, (), [], [], []⟩ : EspT LexSimple Unit)) =
        some ⟨1, 0, [97, 1, 1, 1]⟩ := by decide +kernel
  refine ⟨by decide, by decide, returned, fun honours => ?_⟩
  rw [HonoursLength, if_neg (by decide)] at honours
  obtain ⟨message, after, panicked⟩ := honours
  rw [panicked] at returned
  cases returned

end Cs140e.Esp
