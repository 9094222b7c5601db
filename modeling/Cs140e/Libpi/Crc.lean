import Cs140e.Library.Feedback
import Mathlib.Data.Nat.ModEq
import Mathlib.Tactic.NormNum.Prime

/-!
# The checksum

`crc.c` of libpi and of libunix, and the copy in `simple-boot.h`.  The table
drives a register of 32 bits that shifts out the low bit and adds the generator
polynomial, a byte at a time.
-/

namespace Cs140e.Libpi.Crc

open Library

def crc32Tab : List (BitVec 32) :=
  [
    0x00000000, 0x77073096, 0xee0e612c, 0x990951ba, 0x076dc419, 0x706af48f, 0xe963a535,
    0x9e6495a3, 0x0edb8832, 0x79dcb8a4, 0xe0d5e91e, 0x97d2d988, 0x09b64c2b, 0x7eb17cbd,
    0xe7b82d07, 0x90bf1d91, 0x1db71064, 0x6ab020f2, 0xf3b97148, 0x84be41de, 0x1adad47d,
    0x6ddde4eb, 0xf4d4b551, 0x83d385c7, 0x136c9856, 0x646ba8c0, 0xfd62f97a, 0x8a65c9ec,
    0x14015c4f, 0x63066cd9, 0xfa0f3d63, 0x8d080df5, 0x3b6e20c8, 0x4c69105e, 0xd56041e4,
    0xa2677172, 0x3c03e4d1, 0x4b04d447, 0xd20d85fd, 0xa50ab56b, 0x35b5a8fa, 0x42b2986c,
    0xdbbbc9d6, 0xacbcf940, 0x32d86ce3, 0x45df5c75, 0xdcd60dcf, 0xabd13d59, 0x26d930ac,
    0x51de003a, 0xc8d75180, 0xbfd06116, 0x21b4f4b5, 0x56b3c423, 0xcfba9599, 0xb8bda50f,
    0x2802b89e, 0x5f058808, 0xc60cd9b2, 0xb10be924, 0x2f6f7c87, 0x58684c11, 0xc1611dab,
    0xb6662d3d, 0x76dc4190, 0x01db7106, 0x98d220bc, 0xefd5102a, 0x71b18589, 0x06b6b51f,
    0x9fbfe4a5, 0xe8b8d433, 0x7807c9a2, 0x0f00f934, 0x9609a88e, 0xe10e9818, 0x7f6a0dbb,
    0x086d3d2d, 0x91646c97, 0xe6635c01, 0x6b6b51f4, 0x1c6c6162, 0x856530d8, 0xf262004e,
    0x6c0695ed, 0x1b01a57b, 0x8208f4c1, 0xf50fc457, 0x65b0d9c6, 0x12b7e950, 0x8bbeb8ea,
    0xfcb9887c, 0x62dd1ddf, 0x15da2d49, 0x8cd37cf3, 0xfbd44c65, 0x4db26158, 0x3ab551ce,
    0xa3bc0074, 0xd4bb30e2, 0x4adfa541, 0x3dd895d7, 0xa4d1c46d, 0xd3d6f4fb, 0x4369e96a,
    0x346ed9fc, 0xad678846, 0xda60b8d0, 0x44042d73, 0x33031de5, 0xaa0a4c5f, 0xdd0d7cc9,
    0x5005713c, 0x270241aa, 0xbe0b1010, 0xc90c2086, 0x5768b525, 0x206f85b3, 0xb966d409,
    0xce61e49f, 0x5edef90e, 0x29d9c998, 0xb0d09822, 0xc7d7a8b4, 0x59b33d17, 0x2eb40d81,
    0xb7bd5c3b, 0xc0ba6cad, 0xedb88320, 0x9abfb3b6, 0x03b6e20c, 0x74b1d29a, 0xead54739,
    0x9dd277af, 0x04db2615, 0x73dc1683, 0xe3630b12, 0x94643b84, 0x0d6d6a3e, 0x7a6a5aa8,
    0xe40ecf0b, 0x9309ff9d, 0x0a00ae27, 0x7d079eb1, 0xf00f9344, 0x8708a3d2, 0x1e01f268,
    0x6906c2fe, 0xf762575d, 0x806567cb, 0x196c3671, 0x6e6b06e7, 0xfed41b76, 0x89d32be0,
    0x10da7a5a, 0x67dd4acc, 0xf9b9df6f, 0x8ebeeff9, 0x17b7be43, 0x60b08ed5, 0xd6d6a3e8,
    0xa1d1937e, 0x38d8c2c4, 0x4fdff252, 0xd1bb67f1, 0xa6bc5767, 0x3fb506dd, 0x48b2364b,
    0xd80d2bda, 0xaf0a1b4c, 0x36034af6, 0x41047a60, 0xdf60efc3, 0xa867df55, 0x316e8eef,
    0x4669be79, 0xcb61b38c, 0xbc66831a, 0x256fd2a0, 0x5268e236, 0xcc0c7795, 0xbb0b4703,
    0x220216b9, 0x5505262f, 0xc5ba3bbe, 0xb2bd0b28, 0x2bb45a92, 0x5cb36a04, 0xc2d7ffa7,
    0xb5d0cf31, 0x2cd99e8b, 0x5bdeae1d, 0x9b64c2b0, 0xec63f226, 0x756aa39c, 0x026d930a,
    0x9c0906a9, 0xeb0e363f, 0x72076785, 0x05005713, 0x95bf4a82, 0xe2b87a14, 0x7bb12bae,
    0x0cb61b38, 0x92d28e9b, 0xe5d5be0d, 0x7cdcefb7, 0x0bdbdf21, 0x86d3d2d4, 0xf1d4e242,
    0x68ddb3f8, 0x1fda836e, 0x81be16cd, 0xf6b9265b, 0x6fb077e1, 0x18b74777, 0x88085ae6,
    0xff0f6a70, 0x66063bca, 0x11010b5c, 0x8f659eff, 0xf862ae69, 0x616bffd3, 0x166ccf45,
    0xa00ae278, 0xd70dd2ee, 0x4e048354, 0x3903b3c2, 0xa7672661, 0xd06016f7, 0x4969474d,
    0x3e6e77db, 0xaed16a4a, 0xd9d65adc, 0x40df0b66, 0x37d83bf0, 0xa9bcae53, 0xdebb9ec5,
    0x47b2cf7f, 0x30b5ffe9, 0xbdbdf21c, 0xcabac28a, 0x53b39330, 0x24b4a3a6, 0xbad03605,
    0xcdd70693, 0x54de5729, 0x23d967bf, 0xb3667a2e, 0xc4614ab8, 0x5d681b02, 0x2a6f2b94,
    0xb40bbe37, 0xc30c8ea1, 0x5a05df1b, 0x2d02ef8d
  ]

/-- `crc32_tab[i]`. -/
def entry (i : BitVec 32) : BitVec 32 := crc32Tab.getD i.toNat 0#32

/-- The body of the loop of `our_crc32_inc`. -/
def crcByte (crc : BitVec 32) (byte : UInt8) : BitVec 32 :=
  entry ((crc ^^^ byte.toBitVec.setWidth 32) &&& 0xFF#32) ^^^ (crc >>> 8)

/-- `while (size--)`, over the bytes of the buffer. -/
def crcLoop : List UInt8 → BitVec 32 → BitVec 32
  | [], crc => crc
  | byte :: rest, crc => crcLoop rest (crcByte crc byte)

def ourCrc32Inc (buf : List UInt8) (crc : BitVec 32) : BitVec 32 :=
  crcLoop buf (crc ^^^ ~~~0#32) ^^^ ~~~0#32

def ourCrc32 (buf : List UInt8) : BitVec 32 := ourCrc32Inc buf 0#32

example : ourCrc32 [0x31, 0x32, 0x33, 0x34, 0x35, 0x36, 0x37, 0x38, 0x39] = 0xCBF43926#32 := by
  decide +kernel

/-! ## The register behind the table -/

/-- The generator polynomial, highest power in the lowest bit. -/
def generator : BitVec 32 := 0xEDB88320#32

/-- Shifts one bit out and adds the generator when it was set. -/
def shiftOut (crc : BitVec 32) : BitVec 32 :=
  (crc >>> 1) ^^^ (if crc.getLsbD 0 then generator else 0#32)

theorem shiftOut_xor (x y : BitVec 32) : shiftOut (x ^^^ y) = shiftOut x ^^^ shiftOut y := by
  unfold shiftOut
  rw [BitVec.ushiftRight_xor_distrib, BitVec.getLsbD_xor]
  cases x.getLsbD 0 <;> cases y.getLsbD 0
  · simp
  · simp [BitVec.xor_assoc]
  · simp only [Bool.xor_false, if_true, Bool.false_eq_true, if_false, BitVec.xor_zero]
    ac_rfl
  · simp only [Bool.xor_self, if_true, Bool.false_eq_true, if_false, BitVec.xor_zero]
    rw [BitVec.xor_assoc, BitVec.xor_comm generator, BitVec.xor_assoc, BitVec.xor_self,
      BitVec.xor_zero]

def register : Feedback 32 where
  step := shiftOut
  step_xor := shiftOut_xor

/-- Low bits that are clear are shifted out without a trace. -/
theorem iterate_shiftOut_clear (k : Nat) {x : BitVec 32}
    (clear : ∀ i < k, x.getLsbD i = false) : shiftOut^[k] x = x >>> k := by
  induction k generalizing x with
  | zero => simp
  | succ k ih =>
      have low : shiftOut x = x >>> 1 := by
        rw [shiftOut, clear 0 (Nat.zero_lt_succ k), if_neg Bool.false_ne_true, BitVec.xor_zero]
      have rest : ∀ i < k, (x >>> 1).getLsbD i = false := by
        intro i small
        rw [BitVec.getLsbD_ushiftRight, Nat.add_comm]
        exact clear (i + 1) (Nat.succ_lt_succ small)
      rw [Function.iterate_succ_apply, low, ih rest, ← BitVec.shiftRight_add, Nat.add_comm]

/-- The table holds eight shifts of its index. -/
theorem crc32Tab_shifts : ∀ n < 256, entry (BitVec.ofNat 32 n) = shiftOut^[8] (BitVec.ofNat 32 n) := by
  decide +kernel

theorem entry_low (x : BitVec 32) : entry (x &&& 0xFF#32) = shiftOut^[8] (x &&& 0xFF#32) := by
  have small : (x &&& 0xFF#32).toNat < 256 := by
    rw [BitVec.toNat_and]
    exact Nat.lt_of_le_of_lt Nat.and_le_right (by decide)
  have shifts := crc32Tab_shifts _ small
  rwa [BitVec.ofNat_toNat, BitVec.setWidth_eq] at shifts

/-- The bit `i` of a mask for the low byte. -/
theorem lowByte_getLsbD (i : Nat) : (0xFF#32).getLsbD i = decide (i < 8) := by
  by_cases small : i < 8
  · rcases i with _ | _ | _ | _ | _ | _ | _ | _ | i <;> first | rfl | omega
  · have high : (0xFF : Nat) < 2 ^ i :=
      Nat.lt_of_lt_of_le (by decide : 0xFF < 2 ^ 8) (Nat.pow_le_pow_right Nat.two_pos (by omega))
    rw [BitVec.getLsbD_ofNat, Nat.testBit_lt_two_pow high]
    simp [small]

theorem split_lowByte (x : BitVec 32) : x = (x &&& 0xFF#32) ^^^ (x &&& ~~~0xFF#32) := by
  apply BitVec.eq_of_getLsbD_eq
  intro i low
  rw [BitVec.getLsbD_xor, BitVec.getLsbD_and, BitVec.getLsbD_and, BitVec.getLsbD_not,
    lowByte_getLsbD]
  by_cases small : i < 8 <;> simp [small, low]

/-- A byte through the table is eight shifts of the register with the byte added. -/
theorem crcByte_eq (crc : BitVec 32) (byte : UInt8) :
    crcByte crc byte = shiftOut^[8] (crc ^^^ byte.toBitVec.setWidth 32) := by
  let x := crc ^^^ byte.toBitVec.setWidth 32
  have clear : ∀ i < 8, (x &&& ~~~0xFF#32).getLsbD i = false := by
    intro i small
    rw [BitVec.getLsbD_and, BitVec.getLsbD_not, lowByte_getLsbD]
    simp [small]
  have high : (x &&& ~~~0xFF#32) >>> 8 = crc >>> 8 := by
    apply BitVec.eq_of_getLsbD_eq
    intro i low
    rw [BitVec.getLsbD_ushiftRight, BitVec.getLsbD_ushiftRight, BitVec.getLsbD_and,
      BitVec.getLsbD_not, lowByte_getLsbD, BitVec.getLsbD_xor, BitVec.getLsbD_setWidth,
      BitVec.getLsbD_of_ge byte.toBitVec (8 + i) (by omega)]
    by_cases inside : 8 + i < 32
    · simp [inside]
    · simp [BitVec.getLsbD_of_ge crc (8 + i) (by omega)]
  have whole : shiftOut^[8] x = entry (x &&& 0xFF#32) ^^^ (crc >>> 8) := by
    rw [entry_low, ← high, ← iterate_shiftOut_clear 8 clear]
    conv => lhs; rw [split_lowByte x]
    exact register.iterate_xor 8 _ _
  exact whole.symm

/-! ## Bit by bit -/

def bitWord (bit : Bool) : BitVec 32 := if bit then 1#32 else 0#32

/-- The register after one bit of a message. -/
def feedBit (crc : BitVec 32) (bit : Bool) : BitVec 32 := shiftOut (crc ^^^ bitWord bit)

/-- The register after the bits of a message. -/
def feedBits (crc : BitVec 32) (bits : List Bool) : BitVec 32 := bits.foldl feedBit crc

/-- The bits of a byte, lowest first. -/
def bitsOf (byte : UInt8) : List Bool := (List.range 8).map byte.toBitVec.getLsbD

def messageBits (bytes : List UInt8) : List Bool := bytes.flatMap bitsOf

/-- The word with these bits, lowest first. -/
def wordOf : List Bool → BitVec 32
  | [] => 0#32
  | bit :: rest => bitWord bit ^^^ (wordOf rest <<< 1)

theorem bitWord_getLsbD (bit : Bool) (i : Nat) :
    (bitWord bit).getLsbD i = (decide (i = 0) && bit) := by
  cases bit with
  | false => simp [bitWord]
  | true =>
      cases i with
      | zero => rfl
      | succ i => simp [bitWord]

theorem wordOf_getLsbD (bits : List Bool) {i : Nat} (low : i < 32) :
    (wordOf bits).getLsbD i = bits.getD i false := by
  induction bits generalizing i with
  | nil => simp [wordOf]
  | cons bit rest ih =>
      rw [wordOf, BitVec.getLsbD_xor, bitWord_getLsbD, BitVec.getLsbD_shiftLeft]
      cases i with
      | zero => simp
      | succ i => simp [low, ih (Nat.lt_of_succ_lt low)]

theorem shiftOut_shiftLeft {x : BitVec 32} (top : x.getLsbD 31 = false) :
    shiftOut (x <<< 1) = x := by
  have low : (x <<< 1).getLsbD 0 = false := by simp
  rw [shiftOut, low, if_neg Bool.false_ne_true, BitVec.xor_zero]
  apply BitVec.eq_of_getLsbD_eq
  intro i small
  rw [BitVec.getLsbD_ushiftRight, BitVec.getLsbD_shiftLeft]
  by_cases last : i = 31
  · subst last
    rw [top]
    rfl
  · simp [show 1 + i < 32 by omega]

/-- At most 32 bits are as good as the word they make. -/
theorem feedBits_eq {bits : List Bool} (short : bits.length ≤ 32) (crc : BitVec 32) :
    feedBits crc bits = shiftOut^[bits.length] (crc ^^^ wordOf bits) := by
  induction bits generalizing crc with
  | nil => simp [feedBits, wordOf]
  | cons bit rest ih =>
      have fewer : rest.length < 32 := short
      have top : (wordOf rest).getLsbD 31 = false := by
        rw [wordOf_getLsbD rest (by decide), List.getD_eq_getElem?_getD,
          List.getElem?_eq_none (by omega)]
        rfl
      have shifted : shiftOut (crc ^^^ wordOf (bit :: rest)) = feedBit crc bit ^^^ wordOf rest := by
        rw [wordOf, ← BitVec.xor_assoc, shiftOut_xor, shiftOut_shiftLeft top]
        rfl
      rw [List.length_cons, Function.iterate_succ_apply, shifted, ← ih (by omega)]
      rfl

theorem wordOf_bitsOf (byte : UInt8) : wordOf (bitsOf byte) = byte.toBitVec.setWidth 32 := by
  apply BitVec.eq_of_getLsbD_eq
  intro i low
  rw [wordOf_getLsbD _ low, BitVec.getLsbD_setWidth, bitsOf, List.getD_eq_getElem?_getD,
    List.getElem?_map]
  by_cases small : i < 8
  · simp [small, low]
  · simp [small, BitVec.getLsbD_of_ge byte.toBitVec i (by omega)]

theorem crcByte_bits (crc : BitVec 32) (byte : UInt8) :
    crcByte crc byte = feedBits crc (bitsOf byte) := by
  rw [crcByte_eq, ← wordOf_bitsOf, feedBits_eq (by simp [bitsOf])]
  simp [bitsOf]

theorem crcLoop_bits (bytes : List UInt8) (crc : BitVec 32) :
    crcLoop bytes crc = feedBits crc (messageBits bytes) := by
  induction bytes generalizing crc with
  | nil => rfl
  | cons byte rest ih =>
      rw [crcLoop, ih, crcByte_bits, messageBits, messageBits, List.flatMap_cons, feedBits,
        feedBits, feedBits, List.foldl_append]

theorem crcLoop_append (a b : List UInt8) (crc : BitVec 32) :
    crcLoop (a ++ b) crc = crcLoop b (crcLoop a crc) := by
  induction a generalizing crc with
  | nil => rfl
  | cons byte rest ih => exact ih (crcByte crc byte)

theorem ourCrc32Inc_bits (buf : List UInt8) (crc : BitVec 32) :
    ourCrc32Inc buf crc = ~~~feedBits (~~~crc) (messageBits buf) := by
  simp only [ourCrc32Inc, crcLoop_bits, ← BitVec.xor_allOnes, BitVec.zero_xor]

/-- The table computes what the register does bit by bit, and a checksum goes on where the
last one stopped, however a message is cut. -/
theorem our_crc32_inc_is_bit_serial (buf rest : List UInt8) (crc : BitVec 32) :
    ourCrc32Inc buf crc = ~~~feedBits (~~~crc) (messageBits buf) ∧
      ourCrc32Inc (buf ++ rest) crc = ourCrc32Inc rest (ourCrc32Inc buf crc) := by
  refine ⟨ourCrc32Inc_bits buf crc, ?_⟩
  simp only [ourCrc32Inc, crcLoop_append, BitVec.xor_assoc, BitVec.xor_self, BitVec.xor_zero]

/-! ## Errors in a message -/

theorem register_check :
    Feedback.PeriodCheck register 32 0x04C11DB7 32 (2 ^ 32 - 1) [3, 5, 17, 257, 65537] 1#32 where
  wide := by decide
  recurrence := ⟨by decide, by decide +kernel⟩
  few := by decide
  primes_prime := by
    intro p member
    simp only [List.mem_cons, List.not_mem_nil, or_false] at member
    rcases member with rfl | rfl | rfl | rfl | rfl <;> norm_num
  primes_prod := by decide
  back := by decide +kernel
  apart := by decide +kernel

theorem shiftOut_injective (k : Nat) : Function.Injective shiftOut^[k] :=
  Feedback.iterate_injective (by decide) register_check.minimalPeriod (by decide) k

theorem feedBits_append (crc : BitVec 32) (front back : List Bool) :
    feedBits crc (front ++ back) = feedBits (feedBits crc front) back :=
  List.foldl_append

theorem feedBits_xor (crc other : BitVec 32) (bits : List Bool) :
    feedBits (crc ^^^ other) bits = feedBits crc bits ^^^ shiftOut^[bits.length] other := by
  induction bits generalizing crc other with
  | nil => rfl
  | cons bit rest ih =>
      have moved : feedBit (crc ^^^ other) bit = feedBit crc bit ^^^ shiftOut other := by
        rw [feedBit, feedBit, ← shiftOut_xor, BitVec.xor_assoc, BitVec.xor_comm other,
          BitVec.xor_assoc]
      exact (congrArg (feedBits · rest) moved).trans (ih (feedBit crc bit) (shiftOut other))

theorem feedBits_injective (bits : List Bool) : Function.Injective (feedBits · bits) := by
  induction bits with
  | nil => exact fun _ _ same => same
  | cons bit rest ih =>
      intro a b same
      have next : feedBit a bit = feedBit b bit := ih same
      exact (BitVec.xor_left_inj _).mp (shiftOut_injective 1 next)

theorem bitsOf_injective : Function.Injective bitsOf := by
  intro a b same
  have words : a.toBitVec.setWidth 32 = b.toBitVec.setWidth 32 := by
    rw [← wordOf_bitsOf, ← wordOf_bitsOf, same]
  have numbers := congrArg BitVec.toNat words
  rw [BitVec.toNat_setWidth_of_le (by decide), BitVec.toNat_setWidth_of_le (by decide)] at numbers
  exact UInt8.toNat_inj.mp numbers

theorem messageBits_injective : Function.Injective messageBits := by
  intro a b same
  induction a generalizing b with
  | nil =>
      cases b with
      | nil => rfl
      | cons byte rest => simp [messageBits, bitsOf] at same
  | cons first rest ih =>
      cases b with
      | nil => simp [messageBits, bitsOf] at same
      | cons byte other =>
          simp only [messageBits, List.flatMap_cons] at same
          obtain ⟨bits, others⟩ := List.append_inj same (by simp [bitsOf])
          rw [bitsOf_injective bits, ih others]

theorem wordOf_injective {u v : List Bool} (short : u.length ≤ 32) (even : u.length = v.length)
    (same : wordOf u = wordOf v) : u = v := by
  apply List.ext_getElem even
  intro i first second
  have bit := congrArg (BitVec.getLsbD · i) same
  rw [wordOf_getLsbD u (by omega), wordOf_getLsbD v (by omega)] at bit
  simpa [first, second] using bit

theorem ourCrc32Inc_inj {a b : List UInt8} {crc : BitVec 32} :
    ourCrc32Inc a crc = ourCrc32Inc b crc ↔
      feedBits (~~~crc) (messageBits a) = feedBits (~~~crc) (messageBits b) := by
  rw [ourCrc32Inc_bits, ourCrc32Inc_bits, BitVec.not_inj]

theorem burst_eq {a b : List UInt8} {crc : BitVec 32} {front u v back : List Bool}
    (first : messageBits a = front ++ (u ++ back)) (second : messageBits b = front ++ (v ++ back))
    (even : u.length = v.length) (short : u.length ≤ 32)
    (same : ourCrc32Inc a crc = ourCrc32Inc b crc) : a = b := by
  rw [ourCrc32Inc_inj, first, second, feedBits_append, feedBits_append, feedBits_append,
    feedBits_append] at same
  have inner : feedBits (feedBits (~~~crc) front) u = feedBits (feedBits (~~~crc) front) v :=
    feedBits_injective back same
  generalize feedBits (~~~crc) front = reached at inner
  rw [feedBits_eq short, feedBits_eq (show v.length ≤ 32 by omega), ← even] at inner
  have words := (BitVec.xor_right_inj _).mp (shiftOut_injective u.length inner)
  apply messageBits_injective
  rw [first, second, wordOf_injective short even words]

/-- Two messages that only differ inside 32 bits in a row have different checksums. -/
theorem crc_detects_bursts (a b : List UInt8) (crc : BitVec 32) (front u v back : List Bool)
    (first : messageBits a = front ++ (u ++ back)) (second : messageBits b = front ++ (v ++ back))
    (even : u.length = v.length) (short : u.length ≤ 32) :
    ourCrc32Inc a crc = ourCrc32Inc b crc ↔ a = b := by
  constructor
  · intro same
    exact burst_eq first second even short same
  · rintro rfl
    rfl

theorem crc_detects_bursts_byte : ourCrc32Inc [0x55] 0#32 ≠ ourCrc32Inc [0x56] 0#32 := by
  intro same
  have equal := (crc_detects_bursts [0x55] [0x56] 0#32 [] (bitsOf 0x55) (bitsOf 0x56) []
    (by decide) (by decide) (by decide) (by decide)).mp same
  exact absurd equal (by decide)

theorem feedBit_not (crc : BitVec 32) (bit : Bool) :
    feedBit crc (!bit) = feedBit crc bit ^^^ shiftOut 1#32 := by
  have flipped : bitWord (!bit) = bitWord bit ^^^ 1#32 := by
    cases bit <;> rfl
  rw [feedBit, feedBit, flipped, ← shiftOut_xor, BitVec.xor_assoc]

theorem iterate_one (k : Nat) : shiftOut^[k] 1#32 = 1#32 ↔ 2 ^ 32 - 1 ∣ k := by
  have turn := Feedback.iterate_eq_iff_mod (by decide) register_check.minimalPeriod k 0
  rw [Nat.dvd_iff_mod_eq_zero]
  exact turn

/-- Two flipped bits go unnoticed only at a distance of a multiple of 2 ^ 32 - 1 bits. -/
theorem crc_detects_pairs (a b : List UInt8) (crc : BitVec 32) (front middle back : List Bool)
    (x y : Bool) (first : messageBits a = front ++ x :: (middle ++ y :: back))
    (second : messageBits b = front ++ (!x) :: (middle ++ (!y) :: back)) :
    ourCrc32Inc a crc = ourCrc32Inc b crc ↔ 2 ^ 32 - 1 ∣ middle.length + 1 := by
  rw [ourCrc32Inc_inj, first, second, feedBits_append, feedBits_append]
  generalize feedBits (~~~crc) front = reached
  have parts (bit last : Bool) : feedBits reached (bit :: (middle ++ last :: back)) =
      feedBits (feedBit (feedBits (feedBit reached bit) middle) last) back :=
    feedBits_append (feedBit reached bit) middle (last :: back)
  rw [parts, parts, (feedBits_injective back).eq_iff, feedBit_not reached x, feedBits_xor,
    ← Function.iterate_succ_apply]
  generalize feedBits (feedBit reached x) middle = state
  have once : Function.Injective shiftOut := shiftOut_injective 1
  rw [feedBit_not, feedBit, feedBit, ← shiftOut_xor, once.eq_iff, ← iterate_one]
  generalize shiftOut^[middle.length.succ] 1#32 = turned
  have sum : state ^^^ turned ^^^ bitWord y ^^^ 1#32 =
      (state ^^^ bitWord y) ^^^ (turned ^^^ 1#32) := by
    ac_rfl
  rw [sum]
  constructor
  · intro same
    have none : 0#32 = turned ^^^ 1#32 := by
      rwa [← BitVec.xor_right_inj (state ^^^ bitWord y), BitVec.xor_zero]
    exact BitVec.xor_eq_zero_iff.mp none.symm
  · rintro rfl
    rw [BitVec.xor_self, BitVec.xor_zero]

theorem crc_detects_pairs_byte : ourCrc32Inc [0x00] 0#32 ≠ ourCrc32Inc [0x81] 0#32 := by
  intro same
  have far := (crc_detects_pairs [0x00] [0x81] 0#32 [] (List.replicate 6 false) [] false false
    (by decide) (by decide)).mp same
  exact absurd far (by decide)

end Cs140e.Libpi.Crc
