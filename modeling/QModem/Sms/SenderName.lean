import QModem.Sms.Deliver

/-!
# Alphanumeric Senders

A sender that is a name is packed like a text: `n` septets in the semi-octets they need, which are
the ceiling of `7 * n / 4`.  The address does not say how many septets it holds.  `pdu_decode`
unpacks all octets of the address, with one more character for what is left of the last octet, and
then cuts off one character.

That is right where something is left.  Eight septets fill seven octets, so for a name whose length
is a multiple of eight nothing is left, and the character that is cut off is the last of the name.

## Main results

- `decodeSender_name`: what is decoded for a name of any length
- `senderName_iff`: a name is returned exactly unless its length is a multiple of eight
- `eightLetters_cut`: `ABCDEFGH` arrives as `ABCDEFG`
-/

namespace QModem.Sms

open Lib List CResult

/-! ## Names in an address -/

/-- A name in the GSM 7-bit alphabet, packed into an address. -/
structure SenderName where
  septets : List UInt8
  septets_lt : ∀ s ∈ septets, s < 128
  /-- Every septet or escape pair stands for a character. -/
  defined : 0 ∉ gsm7Chars false false septets
  /-- The value of the bits behind the last septet. -/
  fill : ℕ
  fill_lt : fill < 2 ^ (8 * ((7 * septets.length + 7) / 8) - 7 * septets.length)
  fits : (7 * septets.length + 3) / 4 < phoneNumberSize

namespace SenderName

variable (name : SenderName)

/-- The length field of the address counts semi-octets. -/
def addressLength : ℕ := (7 * name.septets.length + 3) / 4

/-- All bits of the address as a number. -/
def value : ℕ :=
  Nat.ofDigits (2 ^ 7) (name.septets.map UInt8.toNat) + name.fill * 2 ^ (7 * name.septets.length)

def octets : List UInt8 :=
  (digitList 8 name.value ((7 * name.septets.length + 7) / 8)).map UInt8.ofNat

def chars : List UInt8 := gsm7Chars false false name.septets

@[simp] theorem length_octets : name.octets.length = (7 * name.septets.length + 7) / 8 := by
  simp [octets]

theorem toNat_addressLength : (UInt8.ofNat name.addressLength).toNat = name.addressLength := by
  have hfits := name.fits
  rw [phoneNumberSize] at hfits
  apply toNat_ofNat_of_lt
  unfold addressLength
  omega

theorem holdsOctets (rest : List UInt8) :
    HoldsOctets (name.octets ++ rest) name.value ((7 * name.septets.length + 7) / 8) := by
  intro i hi
  rw [getElem?_append_left (by simpa using hi), getElem?_eq_getElem (by simpa using hi)]
  simp [octets, digitList_getElem]

/-- The first septets of the address are those of the name. -/
theorem septetsOf_value {k : ℕ} (hk : k ≤ name.septets.length) :
    septetsOf name.value k = name.septets.take k :=
  septetsOf_ofDigits name.septets_lt name.fill hk

end SenderName

/-! ## Decoding a name -/

theorem gsm7Items_escape_cons (x : UInt8) (rest : List UInt8) :
    gsm7Items (gsm7bitsEscape :: x :: rest) = .escaped x :: gsm7Items rest := by
  simp [gsm7Items]

/-- Without its last septet a text has one character less: the septet was a character, or the second
half of one whose first half is then dropped. -/
theorem length_g7bitToAscii_dropLast (locking single : Bool) {septets text : List UInt8}
    (x : UInt8) (hlt : ∀ b ∈ septets, b < 128)
    (h : g7bitToAscii locking single septets = .ok text) :
    text.length + 1 = (gsm7Items (septets ++ [x])).length := by
  induction septets using gsm7Items.induct generalizing text with
  | case1 =>
    cases h
    by_cases hx : x = gsm7bitsEscape <;> simp [gsm7Items, hx]
  -- a trailing escape takes the last septet with it
  | case2 =>
    cases h
    simp [gsm7Items]
  | case3 y rest ih =>
    have hesc : gsm7bitsEscape < 128 := by decide
    have hext := extendedChar_eq_ok single (hlt y (by simp))
    obtain ⟨text', htext', -⟩ :=
      g7bitToAscii_eq locking single rest fun b hb => hlt b (by simp [hb])
    simp only [g7bitToAscii, hesc, if_true, hext, ok_bind, htext'] at h
    cases h
    have hrest := ih (fun b hb => hlt b (by simp [hb])) htext'
    rw [cons_append, cons_append, gsm7Items_escape_cons, length_cons, length_cons, hrest]
  | case4 b rest hb ih =>
    have hb128 := hlt b (by simp)
    have hbasic := basicChar_eq_ok locking hb128
    obtain ⟨text', htext', -⟩ :=
      g7bitToAscii_eq locking single rest fun b hb => hlt b (by simp [hb])
    rw [g7bitToAscii_cons_of_ne locking single hb hb128, hbasic] at h
    simp only [ok_bind, htext'] at h
    cases h
    have hrest := ih (fun b hb => hlt b (by simp [hb])) htext'
    rw [cons_append, gsm7Items_cons_of_ne hb, length_cons, length_cons, hrest]

/-- **Decoding a name**: the name itself, or the name without its last septet when its length is a
multiple of eight; nothing is returned for a name without septets. -/
theorem decodeSender_name (name : SenderName) (rest : List UInt8) :
    decodeSender (name.octets ++ rest) typeOfAddressAlphanumeric name.addressLength =
      if name.septets = [] then .error .outOfBounds
      else g7bitToAscii false false
        (if 8 ∣ name.septets.length then name.septets.dropLast else name.septets) := by
  have hhalf : (name.addressLength + 1) / 2 = (7 * name.septets.length + 7) / 8 := by
    unfold SenderName.addressLength
    omega
  rw [decodeSender, if_pos rfl, hhalf]
  by_cases hempty : name.septets = []
  · simp [hempty, SenderName.addressLength, decodePDUMessageGSM7bit]
  rw [if_neg hempty]
  have hpos := length_pos_iff.mpr hempty
  -- more septets are asked for than the octets can hold
  have hroom : 8 * ((7 * name.septets.length + 7) / 8) < 7 * name.addressLength := by
    unfold SenderName.addressLength
    rcases Nat.lt_or_ge name.septets.length 2 with hone | hmany
    · rw [show name.septets.length = 1 by omega]
      norm_num
    · omega
  obtain ⟨last, hdecode⟩ := decodePDUMessageGSM7bit_concat (name.holdsOctets rest) (by omega) hroom
  have hne : septetsOf name.value ((8 * ((7 * name.septets.length + 7) / 8) - 1) / 7) ++ [last] ≠
      [] := by simp
  rw [hdecode, ok_bind, if_neg hne, dropLast_concat]
  congr 1
  split
  · rename_i hdvd
    obtain ⟨k, hk⟩ := hdvd
    rw [name.septetsOf_value (by omega), dropLast_eq_take]
    congr 1
    omega
  · rename_i hdvd
    have hmod : name.septets.length % 8 ≠ 0 := fun h => hdvd (Nat.dvd_of_mod_eq_zero h)
    have hleft : 8 * ((7 * name.septets.length + 7) / 8) ≠ 7 * name.septets.length := by omega
    rw [name.septetsOf_value (by omega), take_of_length_le (by omega)]

/-- The decoded sender is the name exactly unless its length is a multiple of eight. -/
theorem decodeSender_eq_chars_iff (name : SenderName) (rest : List UInt8) :
    decodeSender (name.octets ++ rest) typeOfAddressAlphanumeric name.addressLength =
        .ok name.chars ↔ ¬8 ∣ name.septets.length := by
  rw [decodeSender_name]
  split
  · rename_i hempty
    simp [hempty]
  rename_i hempty
  split
  · rename_i hdvd
    refine iff_of_false ?_ (not_not_intro hdvd)
    intro h
    -- with full octets the last character is cut off, so the name is too short
    have hsplit := dropLast_append_getLast hempty
    have hlength := length_g7bitToAscii_dropLast false false (name.septets.getLast hempty)
      (fun b hb => name.septets_lt b (mem_of_mem_dropLast hb)) h
    rw [hsplit] at hlength
    have hchars : name.chars.length = (gsm7Items name.septets).length := by
      simp [SenderName.chars, gsm7Chars]
    omega
  · rename_i hdvd
    refine iff_of_true ?_ hdvd
    obtain ⟨text, htext, hcase⟩ := g7bitToAscii_eq false false name.septets name.septets_lt
    rw [htext]
    rcases hcase with rfl | hzero
    · rfl
    · exact absurd (hzero ▸ mem_append_right _ (mem_singleton_self 0)) name.defined

/-! ## Messages from a name -/

/-- What a message from a name has in front of its protocol identifier. -/
structure NamedHead where
  smsc : List UInt8
  smsc_length : smsc.length < 256
  first : UInt8
  name : SenderName

namespace NamedHead

variable (h : NamedHead)

/-- The message with everything behind its address. -/
def message (rest : List UInt8) : List UInt8 :=
  UInt8.ofNat h.smsc.length :: h.smsc ++
    (h.first :: UInt8.ofNat h.name.addressLength :: typeOfAddressAlphanumeric ::
      (h.name.octets ++ rest))

/-- What `pdu_decode` does behind the address, with a given sender. -/
def body (sender rest padding outputSmsText : List UInt8) : CResult PduDecoded :=
  decodeBody (h.message rest ++ padding) (h.message rest).length (1 + h.smsc.length)
    (1 + h.smsc.length + 3 + h.name.octets.length) sender outputSmsText

/-- `pdu_decode` on the message in a buffer that may be longer. -/
def decode (rest padding outputSmsText : List UInt8) : CResult PduDecoded :=
  pduDecode (h.message rest ++ padding) (h.message rest).length phoneNumberSize outputSmsText

/-- The decoder gets to the name, and with it to the rest of the message. -/
theorem decode_eq (rest padding outputSmsText : List UInt8) :
    h.decode rest padding outputSmsText =
      (decodeSender (h.name.octets ++ (rest ++ padding)) typeOfAddressAlphanumeric
        h.name.addressLength >>= fun sender => h.body sender rest padding outputSmsText) := by
  have hbuffer : h.message rest ++ padding = UInt8.ofNat h.smsc.length :: h.smsc ++
      (h.first :: UInt8.ofNat h.name.addressLength :: typeOfAddressAlphanumeric ::
        (h.name.octets ++ (rest ++ padding))) := by
    simp [message]
  -- the length of the address counts half octets
  have hoctets : h.name.octets.length = ((UInt8.ofNat h.name.addressLength).toNat + 1) / 2 := by
    rw [h.name.toNat_addressLength, h.name.length_octets, SenderName.addressLength]
    omega
  have hfits : (UInt8.ofNat h.name.addressLength).toNat < phoneNumberSize := by
    rw [h.name.toNat_addressLength]
    exact h.name.fits
  unfold decode body
  rw [hbuffer, pduDecode_addressed h.smsc_length hoctets hfits _ _ _ _ (by simp [message]),
    h.name.toNat_addressLength]

end NamedHead

/-- Behind the address the sender is only handed on. -/
theorem decodeBody_sender (buffer : List UInt8) (bufferLength smsDeliverStart smsPidStart : ℕ)
    (sender outputSmsText : List UInt8) :
    decodeBody buffer bufferLength smsDeliverStart smsPidStart sender outputSmsText =
      (decodeBody buffer bufferLength smsDeliverStart smsPidStart [] outputSmsText).map
        fun d => { d with sender } := by
  -- the map goes through to the record at the end
  simp only [decodeBody, map_bind, apply_ite (Except.map _)]
  rfl

namespace NamedHead

variable (h : NamedHead)

/-- Whenever the rest of the message can be decoded, the message is returned with the characters of
the name as its sender. -/
def ReturnsName : Prop :=
  ∀ rest padding outputSmsText d, h.body [] rest padding outputSmsText = .ok d →
    h.decode rest padding outputSmsText = .ok { d with sender := h.name.chars }

end NamedHead

/-- The fields behind an address, with one octet of data; as a header it is an empty one. -/
def plainRest : List UInt8 := [0, 0x04, 0, 0, 0, 0, 0, 0, 0, 1, 0]

/-- Such a message can be decoded, whatever stands in front of it. -/
theorem decodeBody_plainRest (front : List UInt8) {smsDeliverStart : ℕ}
    (hstart : smsDeliverStart < front.length) :
    ∃ d, decodeBody (front ++ plainRest) (front.length + 11) smsDeliverStart front.length [] [0] =
      .ok d := by
  have hrest : ∀ k, readAt (front ++ plainRest) (front.length + k) = readAt plainRest k :=
    fun k => readAt_append_right rfl
  obtain ⟨first, hfirst⟩ : ∃ first, readAt (front ++ plainRest) smsDeliverStart = .ok first :=
    ⟨_, readAt_of_lt (by rw [length_append]; omega)⟩
  -- with or without the flag: the header is empty
  have hparse : ∀ udhi, ∃ udh, parseUdh (front ++ plainRest) (front.length + 11)
      (front.length + 10) udhi = .ok udh := by
    intro udhi
    cases udhi with
    | false => exact ⟨_, rfl⟩
    | true =>
      have hudhl : readAt (front ++ plainRest) (front.length + 10) = .ok 0 := hrest 10
      simp [parseUdh, hudhl, parseUdhLoop]
  obtain ⟨udh, hudh⟩ := hparse (decide (first &&& 0x40 ≠ 0))
  have htext : decodeText (front ++ plainRest) (front.length + 11) (front.length + 9) 0x04 udh [0] =
      .ok [0] := by
    have hudl : readAt (front ++ plainRest) (front.length + 9) = .ok 1 := hrest 9
    simp [decodeText, hudl, alphabetOf]
  obtain ⟨time, htime⟩ := @decodeTime_of_room (front ++ plainRest) front.length
    (by simp [plainRest])
  unfold decodeBody
  simp only [htime, ok_bind, Nat.add_assoc, Nat.reduceAdd, hfirst, hudh, hrest 1]
  rw [if_neg (by omega), show readAt plainRest 1 = .ok 0x04 from rfl, ok_bind, htext]
  exact ⟨_, rfl⟩

namespace NamedHead

variable (h : NamedHead)

/-- There is a message behind every name. -/
theorem exists_body : ∃ d, h.body [] plainRest [] [0] = .ok d := by
  have hsplit : h.message plainRest = (UInt8.ofNat h.smsc.length :: h.smsc ++
      (h.first :: UInt8.ofNat h.name.addressLength :: typeOfAddressAlphanumeric ::
        h.name.octets)) ++ plainRest := by
    simp [message]
  have hlength : 1 + h.smsc.length + 3 + h.name.octets.length = (UInt8.ofNat h.smsc.length ::
      h.smsc ++ (h.first :: UInt8.ofNat h.name.addressLength :: typeOfAddressAlphanumeric ::
        h.name.octets)).length := by
    simp
    omega
  unfold body
  rw [append_nil, hsplit, hlength, length_append]
  exact decodeBody_plainRest _ (by simp; omega)

theorem decode_of_ok {sender : List UInt8} (rest padding outputSmsText : List UInt8)
    (hsender : decodeSender (h.name.octets ++ (rest ++ padding)) typeOfAddressAlphanumeric
      h.name.addressLength = .ok sender) :
    h.decode rest padding outputSmsText =
      (h.body [] rest padding outputSmsText).map fun d => { d with sender } := by
  rw [h.decode_eq, hsender, ok_bind]
  exact decodeBody_sender ..

end NamedHead

/-- A name that is returned does not have a multiple of eight septets. -/
theorem NamedHead.ReturnsName.not_dvd {h : NamedHead} (hreturns : h.ReturnsName) :
    ¬8 ∣ h.name.septets.length := by
  obtain ⟨d, hd⟩ := h.exists_body
  have hdecode := hreturns plainRest [] [0] d hd
  rw [← decodeSender_eq_chars_iff h.name (plainRest ++ [])]
  rw [h.decode_eq] at hdecode
  -- the address was decoded, and what was decoded is handed on
  cases hsender : decodeSender (h.name.octets ++ (plainRest ++ [])) typeOfAddressAlphanumeric
      h.name.addressLength with
  | error e =>
    rw [hsender] at hdecode
    cases hdecode
  | ok sender =>
    rw [hsender, ok_bind, NamedHead.body, decodeBody_sender] at hdecode
    rw [NamedHead.body] at hd
    rw [hd] at hdecode
    injection hdecode with hdecode
    injection hdecode with _ _ hchars
    rw [hchars]

/-- **The sender of a message from a name**: it is returned character by character exactly unless
the name has a multiple of eight septets. -/
theorem senderName_iff (h : NamedHead) : h.ReturnsName ↔ ¬8 ∣ h.name.septets.length := by
  refine ⟨NamedHead.ReturnsName.not_dvd, ?_⟩
  intro hdvd rest padding outputSmsText d hd
  rw [h.decode_of_ok rest padding outputSmsText
    ((decodeSender_eq_chars_iff h.name (rest ++ padding)).mpr hdvd), hd]
  rfl

/-- The name `ABCDEFGH`. -/
def eightLetters : SenderName where
  septets := [0x41, 0x42, 0x43, 0x44, 0x45, 0x46, 0x47, 0x48]
  septets_lt := by decide +kernel
  defined := by decide +kernel
  fill := 0
  fill_lt := by decide
  fits := by decide

/-- A message from `ABCDEFGH` without a service centre. -/
def fromEightLetters : NamedHead where
  smsc := []
  smsc_length := Nat.zero_lt_succ 255
  first := 0x04
  name := eightLetters

/-- A message from `ABCDEFGH` is returned with the sender `ABCDEFG`. -/
theorem eightLetters_cut :
    (fromEightLetters.decode plainRest [] [0]).toOption.map PduDecoded.sender =
        some (ascii "ABCDEFG") ∧
      ¬fromEightLetters.ReturnsName := by
  refine ⟨by decide +kernel, ?_⟩
  intro hreturns
  exact hreturns.not_dvd (by decide)

end QModem.Sms
