import QModem.Lib.Digits
import QModem.Voip.BrowserTokens

/-!
# Texts of Tokens

`encode_token` writes 16 bytes as 22 characters, six bits each, and `decode_token` reads them back.
Both go through a word of 32 bits from which the oldest bits drop out; only those that have not been
written yet matter.  A text has 132 bits, and the last four are left over.

## Main results

- `spells_encodeLoop`, `decodeLoop_eq`: the numbers on both sides of a loop
- `token_texts`: secrets are read back, and which texts are read as what
-/

namespace QModem.Voip

open Lib List

/-! ## The alphabet -/

def sixBits (c : UInt8) : ℕ := (base64urlValue c).getD 0

def secretNumber (secret : Bytes) : ℕ := appendGroups 8 0 (secret.map UInt8.toNat)

def textNumber (text : Bytes) : ℕ := appendGroups 6 0 (text.map sixBits)

/-- The characters and the length of the text of a token -/
structure IsTokenText (text : Bytes) : Prop where
  length_eq : text.length = 22
  alphabet : ∀ c ∈ text, c ∈ base64url

theorem isSome_base64urlValue (c : UInt8) : (base64urlValue c).isSome = true ↔ c ∈ base64url := by
  simp [base64urlValue]

theorem base64urlValue_of_mem :
    ∀ c ∈ base64url, base64urlValue c = some (sixBits c) ∧ sixBits c < 2 ^ 6 := by
  decide +kernel

theorem base64url_getD : ∀ v < 2 ^ 6, base64url.getD v 0 ∈ base64url ∧
    sixBits (base64url.getD v 0) = v := by
  decide +kernel

theorem base64urlDigit_spec (value : UInt32) :
    base64urlDigit value ∈ base64url ∧ sixBits (base64urlDigit value) = value.toNat % 2 ^ 6 := by
  have hdigit : base64urlDigit value = base64url.getD (value.toNat % 2 ^ 6) 0 := by
    exact congrArg (base64url.getD · 0) (Nat.and_two_pow_sub_one_eq_mod value.toNat 6)
  rw [hdigit]
  exact base64url_getD _ (Nat.mod_lt _ (Nat.two_pow_pos 6))

variable {accumulator : UInt32} {m n k bits total : ℕ} {text output : Bytes}

/-! ## Encoding -/

/-- The text is the rest of a number of `total` more bits, filled up with zeros, behind `m`. -/
structure Spells (text : Bytes) (m n total : ℕ) : Prop where
  alphabet : ∀ c ∈ text, c ∈ base64url
  value : ∃ p < 6, 6 * text.length = total + p ∧ appendGroups 6 m (text.map sixBits) = n * 2 ^ p

/-- One more character in front, with the six bits that the accumulator holds above the last `k`. -/
theorem Spells.digit (h : Spells text (m / 2 ^ k) n total)
    (hword : accumulator.toNat = m % 2 ^ 32) (hk : k + 6 ≤ 32) :
    Spells (base64urlDigit (accumulator >>> UInt32.ofNat k) :: text) (m / 2 ^ (k + 6)) n
      (total + 6) := by
  obtain ⟨hmem, hdigit⟩ := base64urlDigit_spec (accumulator >>> UInt32.ofNat k)
  obtain ⟨p, hp, hlength, hnumber⟩ := h.value
  rw [toNat_shiftRight_mod hword hk (by omega)] at hdigit
  rw [← div_append m 6 k] at hnumber
  refine ⟨forall_mem_cons.mpr ⟨hmem, h.alphabet⟩, p, hp, ?_, ?_⟩
  · rw [length_cons]
    omega
  · rw [← hnumber, map_cons, hdigit]
    rfl

/-- The loop of `encode_token` goes on where the number that has been read is written up to its last
`bits` bits. -/
theorem spells_encodeLoop (input : Bytes) (hword : accumulator.toNat = n % 2 ^ 32) (hbits : bits < 6) :
    Spells (encodeLoop input accumulator bits) (n / 2 ^ bits)
      (appendGroups 8 n (input.map UInt8.toNat)) (bits + 8 * input.length) := by
  induction input generalizing accumulator n bits with
  | nil =>
    rw [encodeLoop]
    split
    next hrest =>
      -- zeros fill up the last character
      have hshift := @toNat_shiftIn (6 - bits) n accumulator 0 hword (by omega) (Nat.two_pow_pos _)
      have hfront := @append_div (6 - bits) n bits 0 (Nat.two_pow_pos _)
      obtain ⟨hmem, hdigit⟩ := base64urlDigit_spec (accumulator <<< UInt32.ofNat (6 - bits))
      rw [UInt32.or_zero] at hshift
      rw [hshift, Nat.mod_mod_of_dvd _ (by decide)] at hdigit
      rw [Nat.add_sub_cancel' hbits.le] at hfront
      refine ⟨forall_mem_singleton.mpr hmem, 6 - bits, by omega, by simp; omega, ?_⟩
      rw [map_singleton, hdigit, ← hfront]
      exact Nat.div_add_mod' _ _
    next hrest =>
      obtain rfl : bits = 0 := not_not.mp hrest
      exact ⟨forall_mem_nil _, 0, by decide, rfl, by simp [appendGroups]⟩
  | cons c input ih =>
    have hshift := @toNat_shiftIn 8 n accumulator c.toUInt32 hword (by decide) c.toNat_lt
    have hfront := @append_div 8 n bits _ c.toNat_lt
    rw [encodeLoop, ← hfront, length_cons]
    by_cases hmany : 4 ≤ bits
    · -- two characters
      obtain ⟨b, rfl⟩ : ∃ b, bits = b + 4 := ⟨bits - 4, by omega⟩
      have hrest := ((ih hshift (show b < 6 by omega)).digit hshift (by omega)).digit hshift (by omega)
      rw [emitDigits, if_pos (by omega), show b + 4 + 8 - 6 = b + 6 by omega,
        show b + 4 + 8 - 12 = b by omega,
        show b + 4 + 8 * (input.length + 1) = b + 8 * input.length + 6 + 6 by omega]
      exact hrest
    · have hrest := (ih hshift (show bits + 2 < 6 by omega)).digit hshift (by omega)
      rw [emitDigits, if_neg (by omega), if_pos (by omega), show bits + 8 - 6 = bits + 2 by omega,
        show bits + 8 * (input.length + 1) = bits + 2 + 8 * input.length + 6 by omega]
      exact hrest

/-! ## Decoding -/

/-- The loop of `decode_token` writes the number that it has read up to its last `bits` bits, as
long as there is room for it. -/
theorem decodeLoop_eq (text : Bytes) (htext : ∀ c ∈ text, c ∈ base64url)
    (hword : accumulator.toNat = n % 2 ^ 32) (hbits : bits < 8)
    (houtput : appendGroups 8 0 (output.map UInt8.toNat) = n / 2 ^ bits)
    (hroom : 8 * output.length + bits + 6 * text.length < 8 * 17) :
    ∃ secret rest, decodeLoop text accumulator bits output = some (secret, rest) ∧ rest < 8 ∧
      8 * secret.length + rest = 8 * output.length + bits + 6 * text.length ∧
      appendGroups 8 0 (secret.map UInt8.toNat) =
        appendGroups 6 n (text.map sixBits) / 2 ^ rest := by
  induction text generalizing accumulator n bits output with
  | nil => exact ⟨output, bits, rfl, hbits, rfl, houtput⟩
  | cons c text ih =>
    rw [forall_mem_cons] at htext
    rw [length_cons] at hroom ⊢
    obtain ⟨hvalue, hlt⟩ := base64urlValue_of_mem c htext.1
    have hgroup : (UInt32.ofNat (sixBits c)).toNat = sixBits c := by
      rw [UInt32.toNat_ofNat']
      omega
    have hshift : (accumulator <<< 6 ||| UInt32.ofNat (sixBits c)).toNat =
        (n * 2 ^ 6 + sixBits c) % 2 ^ 32 := by
      have hword' := toNat_shiftIn (w := 6) hword (by decide) (hgroup.trans_lt hlt)
      rwa [hgroup] at hword'
    rw [← @append_div 6 n bits _ hlt] at houtput
    rw [decodeLoop, hvalue]
    dsimp only
    -- six bits more; a byte is written if there are eight of them
    generalize accumulator <<< 6 ||| UInt32.ofNat (sixBits c) = word at hshift ⊢
    split
    next hbyte =>
      obtain ⟨b, hb⟩ : ∃ b, bits + 6 = b + 8 := ⟨bits + 6 - 8, by omega⟩
      rw [hb] at houtput ⊢
      rw [if_neg (by omega), Nat.add_sub_cancel]
      have hnext : appendGroups 8 0 ((output ++ [(word >>> UInt32.ofNat b).toUInt8]).map UInt8.toNat) =
          (n * 2 ^ 6 + sixBits c) / 2 ^ b := by
        rw [map_append, appendGroups_append, houtput, map_singleton, UInt32.toNat_toUInt8,
          toNat_shiftRight_mod hshift (by omega) (by omega)]
        exact div_append _ 8 b
      obtain ⟨secret, rest, hloop, hrest, hlength, hnumber⟩ :=
        ih htext.2 hshift (show b < 8 by omega) hnext (by simp; omega)
      exact ⟨secret, rest, hloop, hrest, by simp at hlength; omega, hnumber⟩
    next hbyte =>
      obtain ⟨secret, rest, hloop, hrest, hlength, hnumber⟩ :=
        ih htext.2 hshift (by omega) houtput (by omega)
      exact ⟨secret, rest, hloop, hrest, by omega, hnumber⟩

/-- A text with another character is refused. -/
theorem alphabet_of_decodeLoop {r : Bytes × ℕ} (h : decodeLoop text accumulator bits output = some r) :
    ∀ c ∈ text, c ∈ base64url := by
  induction text generalizing accumulator bits output with
  | nil => exact forall_mem_nil _
  | cons c text ih =>
    rw [decodeLoop] at h
    split at h
    · cases h
    -- a character outside of the alphabet ends the loop
    next value hvalue =>
      have hmem : (base64urlValue c).isSome = true := by
        rw [hvalue]
        rfl
      rw [isSome_base64urlValue] at hmem
      refine forall_mem_cons.mpr ⟨hmem, ?_⟩
      dsimp only at h
      split at h
      · split at h
        · cases h
        · exact ih h
      · exact ih h

/-- A token of the right form has a secret of 16 bytes. -/
theorem decodeToken_of_isTokenText (h : IsTokenText text) :
    ∃ secret, decodeToken text = some secret ∧ secret.length = 16 ∧
      secretNumber secret = textNumber text >>> 4 := by
  have hlength := h.length_eq
  obtain ⟨secret, rest, hloop, hrest, htotal, hnumber⟩ :=
    @decodeLoop_eq 0 0 0 [] text h.alphabet rfl (by decide) rfl (by simp; omega)
  rw [length_nil] at htotal
  obtain rfl : rest = 4 := by omega
  have hsecret : secret.length = 16 := by omega
  refine ⟨secret, ?_, hsecret, ?_⟩
  · rw [decodeToken, if_neg (not_not.mpr hlength), hloop]
    exact if_pos ⟨hsecret, rfl⟩
  · rw [secretNumber, hnumber, Nat.shiftRight_eq_div_pow]
    rfl

theorem isTokenText_of_decodeToken {secret : Bytes} (h : decodeToken text = some secret) :
    IsTokenText text := by
  rw [decodeToken] at h
  split at h
  · cases h
  next hlength =>
    split at h
    next hloop => exact ⟨not_not.mp hlength, alphabet_of_decodeLoop hloop⟩
    · cases h

/-- **Texts of tokens**: every secret of 16 bytes is read back from its text, which has 22
characters of the alphabet.  Every such text is read, as the first 128 bits of its groups of six,
and no other one. -/
theorem token_texts :
    (∀ secret : Bytes, secret.length = 16 →
      IsTokenText (encodeToken secret) ∧ decodeToken (encodeToken secret) = some secret) ∧
    (∀ text, IsTokenText text → ∃ secret, decodeToken text = some secret ∧ secret.length = 16 ∧
      secretNumber secret = textNumber text >>> 4) ∧
    ∀ text, ¬IsTokenText text → decodeToken text = none := by
  refine ⟨fun secret hsecret => ?_, fun text => decodeToken_of_isTokenText, fun text h => ?_⟩
  · have hspells := @spells_encodeLoop 0 0 0 secret rfl (by decide)
    obtain ⟨p, hp, hlength, hnumber⟩ := hspells.value
    obtain rfl : p = 4 := by omega
    have htext : IsTokenText (encodeToken secret) :=
      ⟨show (encodeLoop secret 0 0).length = 22 by omega, hspells.alphabet⟩
    obtain ⟨secret', hdecode, hlength', hvalue⟩ := decodeToken_of_isTokenText htext
    -- the zeros that fill up the text are the four bits that are left over
    have hback : textNumber (encodeToken secret) >>> 4 = secretNumber secret := by
      rw [Nat.shiftRight_eq_div_pow]
      exact (congrArg (· / 2 ^ 4) hnumber).trans (Nat.mul_div_cancel _ (Nat.two_pow_pos 4))
    have hbytes (bytes : Bytes) : ∀ g ∈ bytes.map UInt8.toNat, g < 2 ^ 8 :=
      forall_mem_map.mpr fun c _ => c.toNat_lt
    have hsame := (appendGroups_inj (by simp [hlength', hsecret]) (hbytes secret') (hbytes secret)
      (hvalue.trans hback)).2
    rw [hdecode, map_injective_iff.mpr (fun _ _ => UInt8.toNat_inj.mp) hsame]
    exact ⟨htext, rfl⟩
  · cases hdecode : decodeToken text with
    | none => rfl
    | some secret => exact absurd (isTokenText_of_decodeToken hdecode) h

end QModem.Voip
