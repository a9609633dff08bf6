import QModem.Lib.CMemory
import QModem.Lib.Digits

/-!
# GSM 7-bit Alphabet

The septet decoder and the character tables of `libqmodem-sms/src/pdu.c`.

- `decodePDUMessageGSM7bit` splits an octet buffer into septets.
- `g7bitToAscii` replaces septets and escape pairs by the characters of the tables.

The tables use `0` for "no character", and that value is written to the text like any other.
-/

namespace QModem.Sms

open Lib List

/-! ## Character tables -/

/-- Septet that introduces a character of the extension table. -/
def gsm7bitsEscape : UInt8 := 0x1b

/-- The default alphabet, `0` where the table has no character. -/
def gsm7bitsToLatin1 : List UInt8 :=
  [0x40, 0xa3, 0x24, 0xa5, 0xe8, 0xe9, 0xf9, 0xec, 0xf2, 0xc7, 0x0a, 0xd8, 0xf8, 0x0d, 0xc5, 0xe5,
      0, 0x5f,    0,    0,    0,    0,    0,    0,    0,    0,    0,    0, 0xc6, 0xe6, 0xdf, 0xc9,
   0x20, 0x21, 0x22, 0x23, 0xa4, 0x25, 0x26, 0x27, 0x28, 0x29, 0x2a, 0x2b, 0x2c, 0x2d, 0x2e, 0x2f,
   0x30, 0x31, 0x32, 0x33, 0x34, 0x35, 0x36, 0x37, 0x38, 0x39, 0x3a, 0x3b, 0x3c, 0x3d, 0x3e, 0x3f,
   0xa1, 0x41, 0x42, 0x43, 0x44, 0x45, 0x46, 0x47, 0x48, 0x49, 0x4a, 0x4b, 0x4c, 0x4d, 0x4e, 0x4f,
   0x50, 0x51, 0x52, 0x53, 0x54, 0x55, 0x56, 0x57, 0x58, 0x59, 0x5a, 0xc4, 0xd6, 0xd1, 0xdc, 0xa7,
   0xbf, 0x61, 0x62, 0x63, 0x64, 0x65, 0x66, 0x67, 0x68, 0x69, 0x6a, 0x6b, 0x6c, 0x6d, 0x6e, 0x6f,
   0x70, 0x71, 0x72, 0x73, 0x74, 0x75, 0x76, 0x77, 0x78, 0x79, 0x7a, 0xe4, 0xf6, 0xf1, 0xfc, 0xe0]

def gsm7bitsExtendToLatin1 : List UInt8 :=
  [   0,    0,    0,    0,    0,    0,    0,    0,    0,    0, 0x0c,    0,    0,    0,    0,    0,
      0,    0,    0,    0, 0x5e,    0,    0,    0,    0,    0,    0,    0,    0,    0,    0,    0,
      0,    0,    0,    0,    0,    0,    0,    0, 0x7b, 0x7d,    0,    0,    0,    0,    0, 0x5c,
      0,    0,    0,    0,    0,    0,    0,    0,    0,    0,    0,    0, 0x5b, 0x7e, 0x5d,    0,
   0x7c,    0,    0,    0,    0,    0,    0,    0,    0,    0,    0,    0,    0,    0,    0,    0,
      0,    0,    0,    0,    0,    0,    0,    0,    0,    0,    0,    0,    0,    0,    0,    0,
      0,    0,    0,    0,    0,    0,    0,    0,    0,    0,    0,    0,    0,    0,    0,    0,
      0,    0,    0,    0,    0,    0,    0,    0,    0,    0,    0,    0,    0,    0,    0,    0]

def turkishExtendToLatin1 : List UInt8 :=
  [   0,    0,    0,    0,    0,    0,    0,    0,    0,    0, 0x0c,    0,    0,    0,    0,    0,
      0,    0,    0,    0, 0x5e,    0,    0,    0,    0,    0,    0,    0,    0,    0,    0,    0,
      0,    0,    0,    0,    0,    0,    0,    0, 0x7b, 0x7d,    0,    0,    0,    0,    0, 0x5c,
      0,    0,    0,    0,    0,    0,    0,    0,    0,    0,    0,    0, 0x5b, 0x7e, 0x5d,    0,
   0x7c,    0,    0, 0xc7,    0,    0,    0, 0xd0,    0, 0xdd,    0,    0,    0,    0,    0,    0,
      0,    0,    0, 0xde,    0,    0,    0,    0,    0,    0,    0,    0,    0,    0,    0,    0,
      0,    0,    0, 0xe7,    0,    0,    0, 0xf0,    0, 0xfd,    0,    0,    0,    0,    0,    0,
      0,    0,    0, 0xfe,    0,    0,    0,    0,    0,    0,    0,    0,    0,    0,    0,    0]

/-- The cases of the Turkish locking shift that differ from the default alphabet. -/
def turkishLockingCases : List (UInt8 × UInt8) :=
  [(0x07, 0xfd), (0x0b, 0xd0), (0x0c, 0xf0), (0x1c, 0xde), (0x1d, 0xfe), (0x40, 0xdd),
   (0x5b, 0xc4), (0x5c, 0xd6), (0x5d, 0xd1), (0x5e, 0xdc), (0x60, 0xe7), (0x7b, 0xe4),
   (0x7c, 0xf6), (0x7d, 0xf1), (0x7e, 0xfc), (0x7f, 0xe0)]

/-- Turkish locking shift; falls back to the default alphabet. -/
def gsm7LockingToLatin1 (value : UInt8) : CResult UInt8 :=
  match turkishLockingCases.lookup value with
  | some c => .ok c
  | none => readAt gsm7bitsToLatin1 value.toNat

/-- Character of a single septet under the shift the header selects. -/
def basicChar (useTurkishLocking : Bool) (value : UInt8) : CResult UInt8 :=
  if useTurkishLocking then gsm7LockingToLatin1 value
  else readAt gsm7bitsToLatin1 value.toNat

/-- Character of the septet behind an escape. -/
def extendedChar (useTurkishSingle : Bool) (value : UInt8) : CResult UInt8 :=
  readAt (if useTurkishSingle then turkishExtendToLatin1 else gsm7bitsExtendToLatin1) value.toNat

/-! ## Septets to characters -/

/-- The in-place translation of `G7bitToAscii` on the first `buffer_length` bytes of its buffer.

An escape pair is written to the place of the escape and the rest of the buffer moves down by one;
an escape at the very end is dropped. -/
def g7bitToAscii (useTurkishLocking useTurkishSingle : Bool) :
    List UInt8 → CResult (List UInt8)
  | [] => .ok []
  | b :: rest =>
    if b < 128 then
      if b = gsm7bitsEscape then
        match rest with
        | [] => .ok []
        | x :: rest' => do
          let c ← extendedChar useTurkishSingle x
          return c :: (← g7bitToAscii useTurkishLocking useTurkishSingle rest')
      else do
        let c ← basicChar useTurkishLocking b
        return c :: (← g7bitToAscii useTurkishLocking useTurkishSingle rest)
    else do
      return b :: (← g7bitToAscii useTurkishLocking useTurkishSingle rest)

/-! ## Octets to septets -/

/-- The loop of `DecodePDUMessage_GSM_7bit`: `n` octets are left, `i` is the next of them.
The result is the text with the `i` and `carry_on_bits` the loop was left with. -/
def decodePDULoop (buffer : List UInt8) (smsTextLength : ℕ) :
    ℕ → ℕ → ℕ → List UInt8 → CResult (List UInt8 × ℕ × ℕ)
  | 0, i, carryOnBits, out => .ok (out, i, carryOnBits)
  | n + 1, i, carryOnBits, out => do
    let hi ← readAt buffer i
    let lo ← readAt buffer (i - 1)
    let septet :=
      ((hi.toNat <<< carryOnBits) ||| (lo.toNat >>> (8 - carryOnBits))) &&& 0x7f
    let out := out ++ [UInt8.ofNat septet]
    if out.length = smsTextLength then
      return (out, i, carryOnBits)
    if carryOnBits + 1 = 8 then
      -- every seventh octet carries a whole septet in its low bits
      let out := out ++ [UInt8.ofNat (hi.toNat &&& 0x7f)]
      if out.length = smsTextLength then
        return (out, i, 1)
      decodePDULoop buffer smsTextLength n (i + 1) 1 out
    else
      decodePDULoop buffer smsTextLength n (i + 1) (carryOnBits + 1) out

/-- Splits the first `bufferLength` octets of `buffer` into at most `smsTextLength` septets. -/
def decodePDUMessageGSM7bit (buffer : List UInt8) (bufferLength smsTextLength : ℕ) :
    CResult (List UInt8) := do
  let first ← if bufferLength > 0 then
      (readAt buffer 0).map fun b => [UInt8.ofNat (b.toNat &&& 0x7f)]
    else .ok []
  if smsTextLength > 1 then
    let (out, i, carryOnBits) ←
      decodePDULoop buffer smsTextLength (bufferLength - 1) 1 1 first
    if out.length < smsTextLength then
      -- last remainder
      let lo ← readAt buffer (i - 1)
      return out ++ [UInt8.ofNat (lo.toNat >>> (8 - carryOnBits))]
    else return out
  else return first

/-! ## Unpacking

The octets `0 … L - 1` of a value `V` hold its septets `0 … m - 1`, where `L` is the ceiling of `7 *
m / 8`.  At octet `i` the loop has produced `k` septets with `7 * k + carry = 8 * i`, so the next
septet starts `carry` bits before the end of octet `i - 1`.
-/

/-- The first septets of `V`, as the decoder stores them. -/
def septetsOf (V k : ℕ) : List UInt8 :=
  (digitList 7 V k).map UInt8.ofNat

/-- `buffer` starts with the octets `0 … L - 1` of `V`. -/
def HoldsOctets (buffer : List UInt8) (V L : ℕ) : Prop :=
  ∀ i < L, buffer[i]? = some (UInt8.ofNat (digit 8 V i))

@[simp] theorem length_septetsOf (V k : ℕ) : (septetsOf V k).length = k := by
  simp [septetsOf]

theorem septetsOf_succ (V k : ℕ) :
    septetsOf V (k + 1) = septetsOf V k ++ [UInt8.ofNat (digit 7 V k)] := by
  simp [septetsOf, digitList_succ]

def septetValue (septets : List UInt8) : ℕ := Nat.ofDigits (2 ^ 7) (septets.map UInt8.toNat)

section SeptetValue

variable {septets : List UInt8} (hlt : ∀ b ∈ septets, b < 128)
include hlt

theorem toNat_septets_lt : ∀ d ∈ septets.map UInt8.toNat, d < 2 ^ 7 := by
  intro d hd
  obtain ⟨b, hb, rfl⟩ := mem_map.mp hd
  exact UInt8.lt_iff_toNat_lt.mp (hlt b hb)

theorem septetValue_lt : septetValue septets < 2 ^ (7 * septets.length) := by
  simpa [septetValue] using ofDigits_lt (by norm_num : 0 < 7) _ (toNat_septets_lt hlt)

/-- The septets of an expansion are its digits, whatever bits follow them. -/
theorem septetsOf_ofDigits (high : ℕ) {k : ℕ} (hk : k ≤ septets.length) :
    septetsOf (septetValue septets + high * 2 ^ (7 * septets.length)) k = septets.take k := by
  apply ext_getElem
  · simpa using hk
  · intro i hi hi'
    have hlen : i < septets.length := by
      rw [length_septetsOf] at hi
      omega
    have hdigit := @digit_add_mul_two_pow_low 7 _ high _ i (septetValue_lt hlt) (by omega)
    have hback : digit 7 (septetValue septets) i = _ :=
      digit_ofDigits 7 _ (toNat_septets_lt hlt) i (by simpa using hlen)
    simp only [septetsOf, getElem_map, digitList_getElem, hdigit, hback, getElem_take]
    simp

theorem septetsOf_septetValue : septetsOf (septetValue septets) septets.length = septets := by
  have h := septetsOf_ofDigits hlt 0 le_rfl
  rwa [Nat.zero_mul, Nat.add_zero, take_length] at h

end SeptetValue

variable {buffer : List UInt8} {V L i m : ℕ}

theorem HoldsOctets.readAt (h : HoldsOctets buffer V L) (hi : i < L) :
    readAt buffer i = .ok (UInt8.ofNat (digit 8 V i)) :=
  readAt_eq_ok (h i hi)

theorem toNat_octet (V i : ℕ) : (UInt8.ofNat (digit 8 V i)).toNat = digit 8 V i := by
  have hlt : digit 8 V i < 2 ^ 8 := digit_lt 8 V i
  simpa using Nat.mod_eq_of_lt hlt

theorem septet_of_neighbours {k c : ℕ} (hpos : 7 * k + c = 8 * (i + 1)) (hc : 1 ≤ c) (hc7 : c ≤ 7) :
    ((digit 8 V (i + 1) <<< c) ||| (digit 8 V i >>> (8 - c))) &&& 0x7f = digit 7 V k := by
  have hstart : 7 * k = 8 * i + (8 - c) := by omega
  have hregroup := @digit_regroup _ _ V _ _ _ hstart (by omega) (by omega)
  rw [hregroup, show 8 - (8 - c) = c by omega]
  exact Nat.and_two_pow_sub_one_eq_mod _ 7

/-- Every seventh octet starts with a whole septet. -/
theorem septet_of_low_bits {k : ℕ} (hpos : 7 * k = 8 * i) : digit 8 V i &&& 0x7f = digit 7 V k := by
  have hregroup := @digit_regroup 7 8 V k i 0 (by omega) (by omega) (by omega)
  rw [hregroup, show (0x7f : ℕ) = 2 ^ 7 - 1 from rfl, Nat.and_two_pow_sub_one_eq_mod]
  apply Nat.eq_of_testBit_eq
  intro j
  simp only [Nat.testBit_mod_two_pow, Nat.testBit_or, Nat.testBit_shiftLeft, Nat.testBit_shiftRight]
  by_cases hj : j < 7
  · have hlt : ¬ 8 ≤ j := by omega
    simp [hj, hlt]
  · simp [hj]

/-- When the octets end, the last septet is what is left of the last octet. -/
theorem septet_of_remainder {k : ℕ} (hpos : 7 * k + 7 = 8 * (i + 1)) :
    digit 8 V i >>> 1 = digit 7 V k := by
  apply Nat.eq_of_testBit_eq
  intro j
  simp only [Nat.testBit_shiftRight, testBit_digit]
  have hidx : 8 * i + (1 + j) = 7 * k + j := by omega
  by_cases hj : j < 7
  · have hlt : 1 + j < 8 := by omega
    simp [hj, hlt, hidx]
  · have hge : ¬ 1 + j < 8 := by omega
    simp [hj, hge]

section

variable (hbuf : HoldsOctets buffer V L)

include hbuf

/-- The loop either fills the text or runs out of octets with `7 * k + carry = 8 * L`. -/
theorem decodePDULoop_spec :
    ∀ n i c k : ℕ, i + 1 + n = L → 7 * k + c = 8 * (i + 1) → 1 ≤ c → c ≤ 7 → k < m →
      ∃ k' i' c', decodePDULoop buffer m n (i + 1) c (septetsOf V k) =
          .ok (septetsOf V k', i', c') ∧
        (k' = m ∧ 7 * m ≤ 8 * L ∨
          (k' < m ∧ i' = L ∧ 7 * k' + c' = 8 * L ∧ 1 ≤ c' ∧ c' ≤ 7)) := by
  intro n
  induction n with
  | zero =>
    intro i c k hn hpos hc hc7 hk
    exact ⟨k, i + 1, c, rfl, .inr ⟨hk, by omega, by omega, hc, hc7⟩⟩
  | succ n ih =>
    intro i c k hn hpos hc hc7 hk
    have hhi := hbuf.readAt (i := i + 1) (by omega)
    have hlo := hbuf.readAt (i := i) (by omega)
    have hseptet := septet_of_neighbours (V := V) hpos hc hc7
    simp only [decodePDULoop, hhi, Nat.add_sub_cancel, hlo, CResult.ok_bind, toNat_octet,
      hseptet, ← septetsOf_succ, length_septetsOf]
    by_cases hfull : k + 1 = m
    · simp only [hfull, if_true]
      exact ⟨m, i + 1, c, rfl, .inl ⟨rfl, by omega⟩⟩
    · simp only [hfull, if_false]
      by_cases hwrap : c + 1 = 8
      · -- the octet also holds the septet after the one just written
        have hlow := septet_of_low_bits (V := V) (k := k + 1) (i := i + 1) (by omega)
        simp only [hwrap, if_true, hlow, ← septetsOf_succ, length_septetsOf]
        by_cases hfull' : k + 1 + 1 = m
        · simp only [hfull', if_true]
          exact ⟨m, i + 1, 1, rfl, .inl ⟨rfl, by omega⟩⟩
        · simp only [hfull', if_false]
          exact ih (i + 1) 1 (k + 2) (by omega) (by omega) (by omega) (by omega) (by omega)
      · simp only [hwrap, if_false]
        exact ih (i + 1) (c + 1) (k + 1) (by omega) (by omega) (by omega) (by omega) (by omega)

/-- Unpacking returns the septets asked for, or runs out of octets in front of the last one and
returns what is left of the last octet in its place. -/
theorem decodePDUMessageGSM7bit_cases (hL : 0 < L) :
    (m ≤ 1 ∨ 7 * m ≤ 8 * L) ∧ decodePDUMessageGSM7bit buffer L m = .ok (septetsOf V (max m 1)) ∨
      ∃ k c, k < m ∧ 7 * k + c = 8 * L ∧ 1 ≤ c ∧ c ≤ 7 ∧ decodePDUMessageGSM7bit buffer L m =
        .ok (septetsOf V k ++ [UInt8.ofNat (digit 8 V (L - 1) >>> (8 - c))]) := by
  have hfirst := hbuf.readAt hL
  have hsingle : septetsOf V 1 = [UInt8.ofNat (digit 7 V 0)] := septetsOf_succ V 0
  have hlow := septet_of_low_bits (V := V) (k := 0) (i := 0) rfl
  simp only [decodePDUMessageGSM7bit, gt_iff_lt, hL, if_true, hfirst, Except.map, toNat_octet,
    hlow, ← hsingle, CResult.ok_bind]
  by_cases hm1 : 1 < m
  · obtain ⟨k', i', c', hloop, hend⟩ :=
      decodePDULoop_spec hbuf (L - 1) 0 1 1 (by omega) (by omega) (by omega) (by omega) hm1
    simp only [hm1, if_true, Nat.zero_add] at hloop ⊢
    rw [hloop]
    simp only [CResult.ok_bind, length_septetsOf]
    -- all septets are there, or the octets came to an end before
    rcases hend with ⟨rfl, hroom⟩ | ⟨hk', rfl, hpos, hc, hc7⟩
    · exact .inl ⟨.inr hroom, by simp [hm1.le]⟩
    · have hlast := hbuf.readAt (i := i' - 1) (by omega)
      refine .inr ⟨k', c', hk', hpos, hc, hc7, ?_⟩
      simp only [hk', if_true, hlast, CResult.ok_bind, CResult.pure_eq, toNat_octet]
  · have hmax : max m 1 = 1 := by omega
    exact .inl ⟨.inl (by omega), by simp [hm1, hmax]⟩

/-- **Unpacking**: from the octets of `V` the decoder returns exactly its first `m` septets. -/
theorem decodePDUMessageGSM7bit_eq (hm : 0 < m) (hL : L = (7 * m + 7) / 8) :
    decodePDUMessageGSM7bit buffer L m = .ok (septetsOf V m) := by
  rcases decodePDUMessageGSM7bit_cases (m := m) hbuf (by omega) with
    ⟨-, hall⟩ | ⟨k, c, hk, hpos, -, hc, hleft⟩
  · rw [hall, max_eq_left hm]
  · -- one septet is missing, and it fills the seven upper bits of the last octet
    have hk1 : k + 1 = m := by omega
    have hc7 : c = 7 := by omega
    have hrem := septet_of_remainder (V := V) (k := k) (i := L - 1) (by omega)
    rw [hleft, hc7, hrem, ← hk1, septetsOf_succ]

/-- **Unpacking to the end**: when more septets are asked for than the octets hold, all of them are
returned, and what is left of the last octet as one more. -/
theorem decodePDUMessageGSM7bit_concat (hL : 0 < L) (hm : 8 * L < 7 * m) :
    ∃ rest, decodePDUMessageGSM7bit buffer L m = .ok (septetsOf V ((8 * L - 1) / 7) ++ [rest]) := by
  rcases decodePDUMessageGSM7bit_cases (m := m) hbuf hL with
    ⟨hroom, -⟩ | ⟨k, c, -, hpos, hc, hc7, hleft⟩
  · omega
  · rw [show (8 * L - 1) / 7 = k by omega]
    exact ⟨_, hleft⟩

end

/-- The octets of any buffer are those of some number. -/
theorem holdsOctets_ofDigits (hlen : L ≤ buffer.length) :
    HoldsOctets buffer (Nat.ofDigits (2 ^ 8) (buffer.map UInt8.toNat)) L := by
  intro i hi
  have hoctets : ∀ d ∈ buffer.map UInt8.toNat, d < 2 ^ 8 := by
    intro d hd
    obtain ⟨b, -, rfl⟩ := mem_map.mp hd
    exact b.toNat_lt
  rw [digit_ofDigits 8 _ hoctets i (by simp; omega)]
  simp [show i < buffer.length by omega]

theorem ofNat_lt_septet {n : ℕ} (hn : n < 128) : UInt8.ofNat n < 128 := by
  rw [UInt8.lt_iff_toNat_lt, UInt8.toNat_ofNat', Nat.mod_eq_of_lt (by omega)]
  exact hn

theorem septetsOf_lt (V k : ℕ) : ∀ b ∈ septetsOf V k, b < 128 := by
  intro b hb
  simp only [septetsOf, digitList, map_map, mem_map] at hb
  obtain ⟨i, -, rfl⟩ := hb
  exact ofNat_lt_septet (digit_lt 7 V i)

/-- Unpacking at least one octet gives at least one septet, whatever length is asked for. -/
theorem decodePDUMessageGSM7bit_total {bufferLength smsTextLength : ℕ} (hpos : 0 < bufferLength)
    (hlen : bufferLength ≤ buffer.length) :
    ∃ out, decodePDUMessageGSM7bit buffer bufferLength smsTextLength = .ok out ∧ out ≠ [] ∧
      ∀ b ∈ out, b < 128 := by
  rcases decodePDUMessageGSM7bit_cases (m := smsTextLength) (holdsOctets_ofDigits hlen) hpos with
    ⟨-, hall⟩ | ⟨k, c, -, -, -, hc, hleft⟩
  · refine ⟨_, hall, ?_, septetsOf_lt _ _⟩
    apply ne_nil_of_length_pos
    rw [length_septetsOf]
    omega
  · refine ⟨_, hleft, by simp, ?_⟩
    intro b hb
    rw [mem_append, mem_singleton] at hb
    rcases hb with hb | rfl
    · exact septetsOf_lt _ _ b hb
    · apply ofNat_lt_septet
      -- the last one is a shifted octet, and loses its high bit
      generalize hlast : digit 8 _ (bufferLength - 1) = last
      have hoctet : last < 2 ^ 8 := hlast ▸ digit_lt 8 _ _
      have hpow : 2 ^ 1 ≤ 2 ^ (8 - c) := Nat.pow_le_pow_right (by omega) (by omega)
      have hshift : last / 2 ^ (8 - c) ≤ last / 2 ^ 1 := Nat.div_le_div_left hpow (by omega)
      omega

/-! ## The characters of a septet sequence -/

/-- What stands for one character: a septet, or an escape with the septet behind it. -/
inductive Gsm7Item where
  | septet (value : UInt8)
  | escaped (value : UInt8)
  deriving DecidableEq, Repr

/-- Reads a septet sequence as characters; an escape with nothing behind it stands alone. -/
def gsm7Items : List UInt8 → List Gsm7Item
  | [] => []
  | b :: rest =>
    if b = gsm7bitsEscape then
      match rest with
      | [] => [.septet b]
      | x :: rest' => .escaped x :: gsm7Items rest'
    else .septet b :: gsm7Items rest

/-- The entry of the repository's tables for one character, `0` when they have none. -/
def Gsm7Item.char (locking single : Bool) : Gsm7Item → UInt8
  | .septet value => ((basicChar locking value).toOption).getD 0
  | .escaped value => ((extendedChar single value).toOption).getD 0

/-- The table entries of a septet sequence. -/
def gsm7Chars (locking single : Bool) (septets : List UInt8) : List UInt8 :=
  (gsm7Items septets).map (Gsm7Item.char locking single)

variable (locking single : Bool) (septets : List UInt8)

theorem basicChar_eq_ok {value : UInt8} (h : value < 128) :
    basicChar locking value = .ok ((Gsm7Item.septet value).char locking false) := by
  have hlt : value.toNat < gsm7bitsToLatin1.length := UInt8.lt_iff_toNat_lt.mp h
  have hread := readAt_of_lt hlt
  cases locking with
  | false => simp [basicChar, Gsm7Item.char, hread, Except.toOption]
  | true =>
    simp only [basicChar, Gsm7Item.char, if_true, gsm7LockingToLatin1, hread]
    split <;> rfl

theorem extendedChar_eq_ok {value : UInt8} (h : value < 128) :
    extendedChar single value = .ok ((Gsm7Item.escaped value).char false single) := by
  have hlt : value.toNat < 128 := UInt8.lt_iff_toNat_lt.mp h
  have hread := readAt_of_lt (show value.toNat <
    (if single then turkishExtendToLatin1 else gsm7bitsExtendToLatin1).length by
      cases single <;> exact hlt)
  simp [extendedChar, Gsm7Item.char, hread, Except.toOption]

theorem gsm7Items_cons_of_ne {b : UInt8} (hb : b ≠ gsm7bitsEscape) (rest : List UInt8) :
    gsm7Items (b :: rest) = .septet b :: gsm7Items rest := by
  conv_lhs => rw [gsm7Items.eq_def]
  simp [hb]

theorem g7bitToAscii_cons_of_ne {b : UInt8} (hb : b ≠ gsm7bitsEscape) (hlt : b < 128)
    (rest : List UInt8) :
    g7bitToAscii locking single (b :: rest) =
      (do let c ← basicChar locking b
          return c :: (← g7bitToAscii locking single rest)) := by
  conv_lhs => rw [g7bitToAscii.eq_def]
  simp [hb, hlt]

/-- The escape itself has no entry in any table. -/
theorem char_escape : (Gsm7Item.septet gsm7bitsEscape).char locking single = 0 := by
  cases locking <;> cases single <;> decide

theorem length_gsm7Items_le : (gsm7Items septets).length ≤ septets.length := by
  induction septets using gsm7Items.induct with
  | case1 => simp [gsm7Items]
  | case2 => simp [gsm7Items]
  | case3 x rest ih => simp [gsm7Items]; omega
  | case4 b rest hb ih => simpa [gsm7Items_cons_of_ne hb] using ih

theorem gsm7Items_eq_nil_iff {septets : List UInt8} : gsm7Items septets = [] ↔ septets = [] := by
  cases septets with
  | nil => simp [gsm7Items]
  | cons b rest =>
    by_cases hb : b = gsm7bitsEscape
    · cases rest <;> simp [gsm7Items, hb]
    · simp [gsm7Items_cons_of_ne hb]

/-- The translation writes the table entries in order; it only leaves out an escape at the end,
which has no entry. -/
theorem g7bitToAscii_eq (hlt : ∀ b ∈ septets, b < 128) :
    ∃ text, g7bitToAscii locking single septets = .ok text ∧
      (text = gsm7Chars locking single septets ∨
        text ++ [0] = gsm7Chars locking single septets) := by
  induction septets using gsm7Items.induct with
  | case1 => exact ⟨[], rfl, .inl rfl⟩
  -- an escape at the end is dropped
  | case2 =>
    refine ⟨[], rfl, .inr ?_⟩
    simp [gsm7Chars, gsm7Items, char_escape]
  | case3 x rest ih =>
    obtain ⟨text, htext, hcase⟩ := ih fun b hb => hlt b (by simp [hb])
    have hx : x < 128 := hlt x (by simp)
    refine ⟨(Gsm7Item.escaped x).char locking single :: text, ?_, ?_⟩
    · have hesc : gsm7bitsEscape < 128 := by decide
      have hext := extendedChar_eq_ok single hx
      simp only [g7bitToAscii, hesc, if_true, hext, CResult.ok_bind, htext]
      rfl
    · simpa [gsm7Chars, gsm7Items] using hcase
  | case4 b rest hb ih =>
    obtain ⟨text, htext, hcase⟩ := ih fun x hx => hlt x (by simp [hx])
    have hb128 : b < 128 := hlt b (by simp)
    refine ⟨(Gsm7Item.septet b).char locking single :: text, ?_, ?_⟩
    · have hbasic := basicChar_eq_ok locking hb128
      simp only [g7bitToAscii_cons_of_ne locking single hb hb128, hbasic, CResult.ok_bind, htext]
      rfl
    · simpa [gsm7Chars, gsm7Items_cons_of_ne hb] using hcase

end QModem.Sms
