import QModem.Sms.Deliver
import QModem.Sms.Submit

/-!
# UTF-8 and UTF-16 Conversions

The two conversions of the SMS library on well-formed text, which is a list of `Char` encoded with
`String.utf8EncodeChar`.

- `utf8CodePoint_encode`: the encoder reads back every character
- `decode_units_known` and `decode_units_unknown`: the decoder restores exactly the characters below
  `U+FFFF`
-/

namespace QModem.Sms

open List Nat

def utf8 (text : List Char) : List UInt8 :=
  text.flatMap String.utf8EncodeChar

def utf16 (text : List Char) : List ℕ :=
  text.flatMap fun c => unitsOf c.toNat

/-! ## Bit patterns of UTF-8 bytes -/

theorem lead2_iff : ∀ b < 256, (b &&& 0xe0 = 0xc0 ↔ 192 ≤ b ∧ b < 224) := by decide +kernel

theorem lead3_iff : ∀ b < 256, (b &&& 0xf0 = 0xe0 ↔ 224 ≤ b ∧ b < 240) := by decide +kernel

theorem lead4_iff : ∀ b < 256, (b &&& 0xf8 = 0xf0 ↔ 240 ≤ b ∧ b < 248) := by decide +kernel

theorem tail_iff : ∀ b < 256, (b &&& 0xc0 = 0x80 ↔ 128 ≤ b ∧ b < 192) := by decide +kernel

/-- Setting bits above a small value adds them. -/
theorem or_high (a : ℕ) {x k : ℕ} (hx : x < 2 ^ k) : 2 ^ k * a ||| x = 2 ^ k * a + x :=
  (two_pow_add_eq_or_of_lt hx a).symm

theorem shift_or (a : ℕ) {x k : ℕ} (hx : x < 2 ^ k) : (a <<< k) ||| x = a * 2 ^ k + x := by
  rw [shiftLeft_eq, mul_comm, or_high a hx]

/-! ## Reading UTF-8 -/

section CodePoint

variable {p : List UInt8} {v i : ℕ}

theorem byteAt_lt (p : List UInt8) (i : ℕ) : byteAt p i < 256 := UInt8.toNat_lt _

/-- A continuation byte, by its value. -/
theorem isContinuation_iff :
    isContinuation p i = true ↔ 128 ≤ byteAt p i ∧ byteAt p i < 192 := by
  simp only [isContinuation, Bool.and_eq_true, decide_eq_true_eq, tail_iff _ (byteAt_lt p i)]
  omega

/-- The reader with sums for the bit patterns. -/
theorem utf8CodePoint_eq (p : List UInt8) :
    utf8CodePoint p =
      let b := byteAt p 0
      if b < 0x80 then some (b, 1)
      else if (192 ≤ b ∧ b < 224) ∧ isContinuation p 1 = true then
        let cp := b % 2 ^ 5 * 2 ^ 6 + byteAt p 1 % 2 ^ 6
        if cp < 0x80 then none else some (cp, 2)
      else if ((224 ≤ b ∧ b < 240) ∧ isContinuation p 1 = true) ∧ isContinuation p 2 = true then
        let cp := b % 2 ^ 4 * 2 ^ 12 + (byteAt p 1 % 2 ^ 6 * 2 ^ 6 + byteAt p 2 % 2 ^ 6)
        if cp < 0x800 ∨ 0xd800 ≤ cp ∧ cp ≤ 0xdfff then none else some (cp, 3)
      else if (((240 ≤ b ∧ b < 248) ∧ isContinuation p 1 = true) ∧ isContinuation p 2 = true) ∧
          isContinuation p 3 = true then
        let cp := b % 2 ^ 3 * 2 ^ 18 + (byteAt p 1 % 2 ^ 6 * 2 ^ 12 +
          (byteAt p 2 % 2 ^ 6 * 2 ^ 6 + byteAt p 3 % 2 ^ 6))
        if cp < 0x10000 ∨ 0x10ffff < cp then none else some (cp, 4)
      else none := by
  -- shifts and masks of the source as arithmetic
  have h6 (a n : ℕ) := shift_or a (Nat.mod_lt n (Nat.two_pow_pos 6))
  have h12 (a m n : ℕ) :=
    shift_or a (show m % 2 ^ 6 * 2 ^ 6 + n % 2 ^ 6 < 2 ^ 12 by omega)
  have h18 (a l m n : ℕ) :=
    shift_or a (show l % 2 ^ 6 * 2 ^ 12 + (m % 2 ^ 6 * 2 ^ 6 + n % 2 ^ 6) < 2 ^ 18 by omega)
  have hmask3 (n : ℕ) : n &&& 0x07 = n % 2 ^ 3 := Nat.and_two_pow_sub_one_eq_mod n 3
  have hmask4 (n : ℕ) : n &&& 0x0f = n % 2 ^ 4 := Nat.and_two_pow_sub_one_eq_mod n 4
  have hmask5 (n : ℕ) : n &&& 0x1f = n % 2 ^ 5 := Nat.and_two_pow_sub_one_eq_mod n 5
  have hmask6 (n : ℕ) : n &&& 0x3f = n % 2 ^ 6 := Nat.and_two_pow_sub_one_eq_mod n 6
  have hb := byteAt_lt p 0
  simp only [utf8CodePoint, Bool.and_eq_true, Bool.or_eq_true, decide_eq_true_eq, lead2_iff _ hb,
    lead3_iff _ hb, lead4_iff _ hb, hmask3, hmask4, hmask5, hmask6, Nat.or_assoc, h6, h12, h18]

theorem utf8CodePoint_two (hlow : 0x80 ≤ v) (hhigh : v < 0x800)
    (h0 : byteAt p 0 = v / 64 % 32 + 192) (h1 : byteAt p 1 = v % 64 + 128) :
    utf8CodePoint p = some (v, 2) := by
  have ht1 : isContinuation p 1 = true := isContinuation_iff.mpr (by omega)
  have hcp : byteAt p 0 % 2 ^ 5 * 2 ^ 6 + byteAt p 1 % 2 ^ 6 = v := by omega
  rw [utf8CodePoint_eq]
  rw [if_neg (by omega), if_pos ⟨by omega, ht1⟩, hcp, if_neg (by omega)]

/-- Three octets are read as the character they spell, unless it is a surrogate. -/
theorem utf8CodePoint_three (hlow : 0x800 ≤ v) (hhigh : v < 0x10000)
    (hsurrogate : v < 0xd800 ∨ 0xdfff < v)
    (h0 : byteAt p 0 = v / 4096 % 16 + 224) (h1 : byteAt p 1 = v / 64 % 64 + 128)
    (h2 : byteAt p 2 = v % 64 + 128) :
    utf8CodePoint p = some (v, 3) := by
  have ht1 : isContinuation p 1 = true := isContinuation_iff.mpr (by omega)
  have ht2 : isContinuation p 2 = true := isContinuation_iff.mpr (by omega)
  have hcp : byteAt p 0 % 2 ^ 4 * 2 ^ 12 + (byteAt p 1 % 2 ^ 6 * 2 ^ 6 + byteAt p 2 % 2 ^ 6) = v := by
    omega
  rw [utf8CodePoint_eq]
  rw [if_neg (by omega), if_neg (by omega), if_pos ⟨⟨by omega, ht1⟩, ht2⟩, hcp, if_neg (by omega)]

/-- Four octets are read as the character they spell. -/
theorem utf8CodePoint_four (hlow : 0x10000 ≤ v) (hhigh : v < 0x110000)
    (h0 : byteAt p 0 = v / 262144 % 8 + 240) (h1 : byteAt p 1 = v / 4096 % 64 + 128)
    (h2 : byteAt p 2 = v / 64 % 64 + 128) (h3 : byteAt p 3 = v % 64 + 128) :
    utf8CodePoint p = some (v, 4) := by
  have ht1 : isContinuation p 1 = true := isContinuation_iff.mpr (by omega)
  have ht2 : isContinuation p 2 = true := isContinuation_iff.mpr (by omega)
  have ht3 : isContinuation p 3 = true := isContinuation_iff.mpr (by omega)
  have hcp : byteAt p 0 % 2 ^ 3 * 2 ^ 18 + (byteAt p 1 % 2 ^ 6 * 2 ^ 12 +
      (byteAt p 2 % 2 ^ 6 * 2 ^ 6 + byteAt p 3 % 2 ^ 6)) = v := by omega
  rw [utf8CodePoint_eq]
  rw [if_neg (by omega), if_neg (by omega), if_neg (by omega),
    if_pos ⟨⟨⟨by omega, ht1⟩, ht2⟩, ht3⟩, hcp, if_neg (by omega)]

end CodePoint

/-- **Reading back a character**: the encoder finds the code point in front of the text. -/
theorem utf8CodePoint_encode (c : Char) (rest : List UInt8) :
    utf8CodePoint (String.utf8EncodeChar c ++ rest) =
      some (c.toNat, (String.utf8EncodeChar c).length) := by
  have hvalid : c.toNat < 0xd800 ∨ (0xdfff < c.toNat ∧ c.toNat < 0x110000) := c.valid
  have hval : c.val.toNat = c.toNat := rfl
  generalize c.toNat = v at hvalid hval
  simp only [String.utf8EncodeChar, hval]
  have hbyte : ∀ {n : ℕ}, n < 256 → (UInt8.ofNat n).toNat = n := toNat_ofNat_of_lt
  -- one to four octets, as in `utf8EncodeChar`
  by_cases h1 : v ≤ 127
  · have h0 : byteAt ([UInt8.ofNat v] ++ rest) 0 = v := hbyte (by omega)
    simp only [if_pos h1, utf8CodePoint, h0, if_pos (show v < 0x80 by omega)]
    rfl
  rw [if_neg h1]
  by_cases h2 : v ≤ 2047
  · rw [if_pos h2]
    exact utf8CodePoint_two (by omega) (by omega) (hbyte (by omega)) (hbyte (by omega))
  rw [if_neg h2]
  by_cases h3 : v ≤ 65535
  · rw [if_pos h3]
    exact utf8CodePoint_three (by omega) (by omega) (by omega) (hbyte (by omega))
      (hbyte (by omega)) (hbyte (by omega))
  · rw [if_neg h3]
    exact utf8CodePoint_four (by omega) (by omega) (hbyte (by omega)) (hbyte (by omega))
      (hbyte (by omega)) (hbyte (by omega))

/-! ## The conversion loop -/

/-- A character other than NUL does not begin with a zero. -/
theorem byteAt_encode (c : Char) (rest : List UInt8) (h0 : c.toNat ≠ 0) :
    byteAt (String.utf8EncodeChar c ++ rest) 0 ≠ 0 := by
  have hval : c.val.toNat = c.toNat := rfl
  generalize c.toNat = v at h0 hval
  have hbyte : ∀ {n : ℕ}, n < 256 → (UInt8.ofNat n).toNat = n := toNat_ofNat_of_lt
  simp only [String.utf8EncodeChar, hval]
  split
  · exact (hbyte (n := v) (by omega)).trans_ne h0
  · split
    · exact (hbyte (by omega)).trans_ne (by omega)
    · split <;> exact (hbyte (by omega)).trans_ne (by omega)

/-- The loop collects the units of the text as long as they fit. -/
theorem utf8ToUtf16Loop_eq {capacity : ℕ} (text : List Char) (hnul : ∀ c ∈ text, c.toNat ≠ 0) :
    ∀ {rounds : ℕ} {units : List ℕ}, (utf8 text).length ≤ rounds → units.length ≤ capacity →
      utf8ToUtf16Loop capacity rounds (utf8 text) units =
        if units.length + (utf16 text).length ≤ capacity then some (units ++ utf16 text)
        else none := by
  induction text with
  | nil =>
    intro rounds units _ hcap
    cases rounds <;> simp [utf8ToUtf16Loop, utf8, utf16, byteAt, hcap]
  | cons c text ih =>
    intro rounds units hrounds hcap
    have hpos : 0 < (String.utf8EncodeChar c).length := by
      rw [String.length_utf8EncodeChar]
      exact c.utf8Size_pos
    have hutf8 : utf8 (c :: text) = String.utf8EncodeChar c ++ utf8 text := rfl
    have hutf16 : utf16 (c :: text) = unitsOf c.toNat ++ utf16 text := rfl
    rw [hutf8, length_append] at hrounds
    -- each character takes at least one octet, so the rounds suffice
    obtain ⟨rounds, rfl⟩ : ∃ r, rounds = r + 1 := ⟨rounds - 1, by omega⟩
    have hne := byteAt_encode c (utf8 text) (hnul c (by simp))
    rw [hutf8, utf8ToUtf16Loop, if_neg hne, utf8CodePoint_encode, hutf16]
    simp only [drop_left, length_append]
    by_cases hfits : units.length + (unitsOf c.toNat).length > capacity
    · rw [if_pos hfits, if_neg (by omega)]
    · rw [if_neg hfits, ih (fun d hd => hnul d (by simp [hd])) (by omega) (by simp; omega),
        length_append, append_assoc, add_assoc]

/-- **Conversion to UTF-16**: a text is converted exactly when its units fit. -/
theorem utf8ToUtf16_eq (text : List Char) (hnul : ∀ c ∈ text, c.toNat ≠ 0) (capacity : ℕ) :
    utf8ToUtf16 (utf8 text) capacity =
      if (utf16 text).length ≤ capacity then some (utf16 text) else none := by
  have hloop := @utf8ToUtf16Loop_eq capacity text hnul _ [] le_rfl (zero_le capacity)
  simpa [utf8ToUtf16] using hloop

/-! ## Decoding units -/

/-- A unit and its two octets. -/
theorem unit_of_octets {u : ℕ} (h : u < 0x10000) :
    ((UInt8.ofNat (u >>> 8)).toNat <<< 8) ||| (UInt8.ofNat u).toNat = u := by
  have hlow : (UInt8.ofNat u).toNat = u % 2 ^ 8 := by simp
  rw [toNat_ofNat_of_lt (show u >>> 8 < 256 by rw [shiftRight_eq_div_pow]; omega), hlow,
    shift_or _ (mod_lt _ (by norm_num)), shiftRight_eq_div_pow]
  omega

/-- The loop of `decode_pdu` over UTF-16 units. -/
theorem ucs2Text_units (units : List ℕ) (h : ∀ u ∈ units, u < 0x10000) :
    ucs2Text (units.flatMap fun u => [UInt8.ofNat (u >>> 8), UInt8.ofNat u]) =
      units.flatMap ucs2Bytes := by
  induction units with
  | nil => rfl
  | cons u units ih =>
    simp only [flatMap_cons, cons_append, nil_append, ucs2Text, ih fun v hv => h v (by simp [hv])]
    rw [Nat.or_comm, unit_of_octets (h u (by simp))]

/-- Surrogates are 16 bit numbers, too. -/
theorem unitsOf_lt {cp : ℕ} (h : cp < 0x110000) : ∀ u ∈ unitsOf cp, u < 0x10000 := by
  intro u hu
  unfold unitsOf at hu
  split at hu
  · simp only [mem_singleton] at hu
    omega
  · simp only [mem_cons, not_mem_nil, or_false] at hu
    have hhigh : (cp - 0x10000) >>> 10 < 2 ^ 16 := by rw [shiftRight_eq_div_pow]; omega
    have hlow : (cp - 0x10000) &&& 0x3ff < 2 ^ 16 :=
      lt_of_le_of_lt and_le_right (by norm_num)
    rcases hu with rfl | rfl
    · exact or_lt_two_pow (show 0xd800 < 2 ^ 16 by norm_num) hhigh
    · exact or_lt_two_pow (show 0xdc00 < 2 ^ 16 by norm_num) hlow

/-- A surrogate adds nothing to the decoded text. -/
theorem ucs2Bytes_surrogate {u : ℕ} (hlow : 0xd800 ≤ u) (hhigh : u ≤ 0xdfff) : ucs2Bytes u = [] := by
  simp only [ucs2Bytes, ucs2ToUtf8, if_neg (show ¬ u < 0x80 by omega),
    if_neg (show ¬ u < 0x800 by omega), if_pos (show u < 0xffff by omega),
    if_pos (And.intro hlow hhigh)]

/-- The units of a supplementary character. -/
theorem unitsOf_supplementary {cp : ℕ} (hlow : 0xffff < cp) (hhigh : cp < 0x110000) :
    unitsOf cp = [0xd800 + (cp - 0x10000) / 2 ^ 10, 0xdc00 + (cp - 0x10000) % 2 ^ 10] := by
  have hfirst : 0xd800 ||| ((cp - 0x10000) >>> 10) = 0xd800 + (cp - 0x10000) / 2 ^ 10 := by
    rw [shiftRight_eq_div_pow]
    exact or_high 54 (k := 10) (by omega)
  have hsecond : 0xdc00 ||| ((cp - 0x10000) &&& 0x3ff) = 0xdc00 + (cp - 0x10000) % 2 ^ 10 := by
    rw [show (0x3ff : ℕ) = 2 ^ 10 - 1 from rfl, and_two_pow_sub_one_eq_mod]
    exact or_high 55 (k := 10) (by omega)
  rw [unitsOf, if_neg (by omega), hfirst, hsecond]

/-- The units of a character the decoder does not know are dropped. -/
theorem decode_units_unknown {c : Char} (h : 0xffff ≤ c.toNat) :
    (unitsOf c.toNat).flatMap ucs2Bytes = [] := by
  have hvalid : c.toNat < 0xd800 ∨ (0xdfff < c.toNat ∧ c.toNat < 0x110000) := c.valid
  rcases eq_or_lt_of_le h with heq | hlt
  · rw [← heq]
    decide
  · rw [unitsOf_supplementary hlt (by omega), flatMap_cons, flatMap_cons, flatMap_nil,
      ucs2Bytes_surrogate (by omega) (by omega), ucs2Bytes_surrogate (by omega) (by omega)]
    rfl

/-- A unit that is no surrogate and not `U+FFFF` is written as the UTF-8 bytes of its character. -/
theorem ucs2ToUtf8_known {c : Char} (h : c.toNat < 0xffff) :
    ucs2ToUtf8 c.toNat = .ok (String.utf8EncodeChar c) := by
  have hvalid : c.toNat < 0xd800 ∨ (0xdfff < c.toNat ∧ c.toNat < 0x110000) := c.valid
  have hval : c.val.toNat = c.toNat := rfl
  generalize c.toNat = v at h hvalid hval
  have hmask : ∀ n, (n &&& 0x3f) ||| 0x80 = n % 64 + 128 := by
    intro n
    rw [show (0x3f : ℕ) = 2 ^ 6 - 1 from rfl, Nat.and_two_pow_sub_one_eq_mod, Nat.or_comm, add_comm]
    exact or_high 2 (k := 6) (mod_lt _ (by norm_num))
  simp only [ucs2ToUtf8, String.utf8EncodeChar, hval, hmask, shiftRight_eq_div_pow]
  -- the three lengths that a unit can have
  by_cases h1 : v ≤ 127
  · rw [if_pos (by omega), if_pos h1]
  rw [if_neg (by omega), if_neg h1]
  by_cases h2 : v ≤ 2047
  · have hlead : v / 2 ^ 6 ||| 0xc0 = v / 64 % 32 + 192 := by
      have hor : 0xc0 ||| v / 2 ^ 6 = 0xc0 + v / 2 ^ 6 := or_high 6 (k := 5) (by omega)
      rw [Nat.or_comm, hor]
      omega
    rw [if_pos (by omega), if_pos h2, hlead]
  rw [if_neg (by omega), if_neg h2, if_pos h, if_neg (by omega), if_pos (by omega)]
  have hlead : v / 2 ^ 12 ||| 0xe0 = v / 4096 % 16 + 224 := by
    have hor : 0xe0 ||| v / 2 ^ 12 = 0xe0 + v / 2 ^ 12 := or_high 7 (k := 5) (by omega)
    rw [Nat.or_comm, hor]
    omega
  rw [hlead]

/-- Only NUL has a zero in its spelling. -/
theorem zero_notMem_utf8EncodeChar {c : Char} (h0 : c.toNat ≠ 0) :
    (0 : UInt8) ∉ String.utf8EncodeChar c := by
  have hval : c.val.toNat = c.toNat := rfl
  generalize c.toNat = v at h0 hval
  -- the other octets are marked by their high bits
  have hne : ∀ n, 0 < n → n < 256 → (0 : UInt8) ≠ UInt8.ofNat n := by
    intro n hpos hlt h
    have := toNat_ofNat_of_lt hlt
    rw [← h, UInt8.toNat_zero] at this
    omega
  intro hmem
  simp only [String.utf8EncodeChar, hval] at hmem
  split_ifs at hmem <;> simp only [mem_cons, not_mem_nil, or_false] at hmem
  · exact hne v (by omega) (by omega) hmem
  · rcases hmem with h | h <;> exact hne _ (by omega) (by omega) h
  · rcases hmem with h | h | h <;> exact hne _ (by omega) (by omega) h
  · rcases hmem with h | h | h | h <;> exact hne _ (by omega) (by omega) h

/-- Every other character is restored. -/
theorem decode_units_known {c : Char} (h0 : c.toNat ≠ 0) (h : c.toNat < 0xffff) :
    (unitsOf c.toNat).flatMap ucs2Bytes = String.utf8EncodeChar c := by
  have hzero := zero_notMem_utf8EncodeChar h0
  rw [unitsOf, if_pos (by omega), flatMap_singleton, ucs2Bytes, ucs2ToUtf8_known h]
  exact filter_eq_self.mpr fun b hb => decide_eq_true fun hb0 => hzero (hb0 ▸ hb)

end QModem.Sms
