import QModem.Sms.Numbers
import QModem.Sms.PhoneOctets
import QModem.Sms.Utf

/-!
# The UCS-2 Round Trip

A text that `pdu_encode_ucs2_parts` accepts is cut into parts; the network hands the user data of
each part on in a DELIVER PDU, and `decode_pdu` turns it into text again.

The encoder writes supplementary characters as surrogate pairs.  The decoder converts every UTF-16
unit on its own, has no character for a surrogate, and none for `U+FFFF` either.

## Main results

- `flatten_chunks_countParts`: the parts hold all units of the text, in order
- `receive_ucs2`: what is returned for any UCS-2 message
- `ucs2_roundTrips_iff`: exactly the texts below `U+FFFF` survive
-/

namespace QModem.Sms

open Lib List Option

/-! ## Cutting the text -/

/-- The units of the next `n` parts. -/
def chunks (limit : ℕ) : ℕ → List ℕ → List (List ℕ)
  | 0, _ => []
  | n + 1, rest => rest.take (partTake limit rest) :: chunks limit n (rest.drop (partTake limit rest))

@[simp] theorem length_chunks (limit n : ℕ) (rest : List ℕ) : (chunks limit n rest).length = n := by
  induction n generalizing rest with
  | zero => rfl
  | succ n ih => simp [chunks, ih]

theorem partTake_le (limit : ℕ) (rest : List ℕ) : partTake limit rest ≤ limit := by
  simp only [partTake]
  split_ifs <;> omega

variable {rest : List ℕ}

theorem partTake_pos {limit : ℕ} (hlimit : 1 < limit) (hne : rest ≠ []) :
    0 < partTake limit rest := by
  have hpos : 0 < rest.length := length_pos_iff.mpr hne
  simp only [partTake]
  split_ifs with h1 h2 h2 <;> simp at h2 <;> omega

theorem partTake_of_le {limit : ℕ} (h : rest.length ≤ limit) :
    partTake limit rest = rest.length := by
  have hmin : (if rest.length < limit then rest.length else limit) = rest.length := by
    split <;> omega
  simp [partTake, hmin]

theorem length_of_mem_chunks {limit n : ℕ} {rest units : List ℕ} (h : units ∈ chunks limit n rest) :
    units.length ≤ limit := by
  induction n generalizing rest with
  | zero => cases h
  | succ n ih =>
    rcases mem_cons.mp h with rfl | h
    · exact (length_take_le _ _).trans (partTake_le limit rest)
    · exact ih h

/-- The counted parts hold every unit of the text. -/
theorem flatten_chunks_countParts :
    ∀ {rounds : ℕ} {rest : List ℕ}, rest.length ≤ rounds →
      (chunks 67 (countParts rounds rest) rest).flatten = rest
  | 0, rest, h => by
    rw [List.length_eq_zero_iff.mp (Nat.le_zero.mp h)]
    rfl
  | rounds + 1, rest, h => by
    by_cases hne : rest = []
    · simp [countParts, hne, chunks]
    · have hpos := partTake_pos (show 1 < 67 by norm_num) hne
      rw [countParts, if_neg hne, chunks, flatten_cons,
        flatten_chunks_countParts (by rw [length_drop]; omega), take_append_drop]

/-- No counted part is empty. -/
theorem ne_nil_of_mem_chunks_countParts :
    ∀ {rounds : ℕ} {rest units : List ℕ}, units ∈ chunks 67 (countParts rounds rest) rest →
      units ≠ []
  | 0, rest, units, h => by cases h
  | rounds + 1, rest, units, h => by
    by_cases hne : rest = []
    · rw [countParts, if_pos hne] at h
      cases h
    · rw [countParts, if_neg hne] at h
      rcases List.mem_cons.mp h with rfl | h
      · have hpos := partTake_pos (show 1 < 67 by norm_num) hne
        simp only [ne_eq, take_eq_nil_iff, hne, or_false]
        omega
      · exact ne_nil_of_mem_chunks_countParts h

/-- A text that does not fit one part needs at least two. -/
theorem one_lt_countParts {rounds : ℕ} (h : rest.length ≤ rounds) (hlong : 67 < rest.length) :
    1 < countParts rounds rest := by
  -- a single part would be longer than 67 units
  by_contra hle
  have hflat := congrArg length (flatten_chunks_countParts h)
  have hshort : ∀ units ∈ chunks 67 (countParts rounds rest) rest, units.length ≤ 67 :=
    fun units => length_of_mem_chunks
  have hnum := length_chunks 67 (countParts rounds rest) rest
  rcases hchunks : chunks 67 (countParts rounds rest) rest with _ | ⟨first, tail⟩
  · rw [hchunks] at hflat
    simp at hflat
    omega
  · rw [hchunks] at hflat hshort hnum
    rw [length_cons] at hnum
    rw [length_eq_zero_iff.mp (show tail.length = 0 by omega)] at hflat
    have := hshort first (by simp)
    simp at hflat
    omega

/-! ## The user data of a part -/

/-- The user data of a message: header indication, length field and octets. -/
structure UserData where
  udhi : Bool
  udl : UInt8
  octets : List UInt8

/-- The user data of a SUBMIT PDU without service centre address, with a validity period. -/
def submitUserData (pdu : List UInt8) : UserData :=
  let start := 5 + ((pdu.getD 3 0).toNat + 1) / 2 + 3
  { udhi := pdu.getD 1 0 &&& 0x40 ≠ 0
    udl := pdu.getD start 0
    octets := pdu.drop (start + 1) }

def concatHeader (total reference part : ℕ) : UserDataHeader where
  elements := [⟨0, [UInt8.ofNat reference, UInt8.ofNat total, UInt8.ofNat (part + 1)], by simp⟩]
  fits := by simp [InfoElement.octets]

def partHeader (total reference part : ℕ) : Option UserDataHeader :=
  if 1 < total then some (concatHeader total reference part) else none

def headerOctets (header : Option UserDataHeader) : List UInt8 :=
  (header.map UserDataHeader.octets).getD []

theorem headerOctets_many {total reference part : ℕ} (htotal : 1 < total) :
    headerOctets (partHeader total reference part) =
      [5, 0, 3, UInt8.ofNat reference, UInt8.ofNat total, UInt8.ofNat (part + 1)] := by
  simp [partHeader, htotal, headerOctets, concatHeader, UserDataHeader.octets,
    UserDataHeader.body, InfoElement.octets]

theorem headerOctets_one {total reference part : ℕ} (htotal : ¬1 < total) :
    headerOctets (partHeader total reference part) = [] := by
  simp [partHeader, htotal, headerOctets]

def ucs2Octets (units : List ℕ) : List UInt8 :=
  units.flatMap fun u => [UInt8.ofNat (u >>> 8), UInt8.ofNat u]

@[simp] theorem length_ucs2Octets (units : List ℕ) :
    (ucs2Octets units).length = 2 * units.length := by
  induction units with
  | nil => rfl
  | cons u units ih => simp only [ucs2Octets, flatMap_cons] at ih ⊢; simp [ih]; omega

/-- The user data of a message that was laid out by the encoder. -/
theorem submitUserData_layout (first toa : UInt8) {n : ℕ} (hn : n < 256) {phone : List UInt8}
    (hphone : phone.length = (n + 1) / 2) (udl : UInt8) (octets : List UInt8) :
    submitUserData ([0, first, 0, UInt8.ofNat n, toa] ++ phone ++ [0, 0x08, 0xb0, udl] ++ octets) =
      { udhi := first &&& 0x40 ≠ 0, udl := udl, octets := octets } := by
  set front := [0, first, 0, UInt8.ofNat n, toa] ++ phone ++ [0, 0x08, 0xb0] with hfront
  have hsplit : [0, first, 0, UInt8.ofNat n, toa] ++ phone ++ [0, 0x08, 0xb0, udl] ++ octets =
      front ++ (udl :: octets) := by simp [hfront]
  -- the address has a variable length
  have hstart : 5 + ((UInt8.ofNat n).toNat + 1) / 2 + 3 = front.length := by
    rw [toNat_ofNat_of_lt hn, ← hphone, hfront]
    simp
    omega
  have h3 : (front ++ (udl :: octets)).getD 3 0 = UInt8.ofNat n := rfl
  have h1 : (front ++ (udl :: octets)).getD 1 0 = first := rfl
  rw [hsplit, submitUserData, h3, h1, hstart]
  simp [drop_append]

variable {total reference maxParts : ℕ} {phoneNumber : List UInt8} {parts : List (List UInt8)}
  {units : List ℕ}

/-- The user data the encoder writes for a part: its header, if any, and its units. -/
theorem submitUserData_encodePart {number : List UInt8} {international : Bool} {part : ℕ}
    {pdu : List UInt8} (hnumber : number.length < 256)
    (h : encodePart number international total reference part units = some pdu) :
    submitUserData pdu = {
      udhi := (partHeader total reference part).isSome
      udl := UInt8.ofNat (headerOctets (partHeader total reference part) ++ ucs2Octets units).length
      octets := headerOctets (partHeader total reference part) ++ ucs2Octets units } := by
  simp only [encodePart, bind_eq_bind, bind_eq_some_iff] at h
  obtain ⟨phone, hphone, h⟩ := h
  obtain rfl := some.inj h
  rw [append_assoc _ _ (units.flatMap _),
    submitUserData_layout _ _ hnumber (length_encodePhoneNumber hphone)]
  -- only with several parts there is a header
  by_cases htotal : 1 < total
  · rw [headerOctets_many htotal, length_append, length_ucs2Octets]
    simp only [htotal, if_true, partHeader, isSome_some]
    rw [Nat.mul_comm units.length 2, Nat.add_comm (2 * units.length) 6]
    rfl
  · rw [headerOctets_one htotal, nil_append, length_ucs2Octets]
    simp only [htotal, if_false, partHeader, isSome_none, Nat.mul_comm units.length 2]
    rfl

/-! ## Receiving a UCS-2 message -/

/-- What a DELIVER PDU in UCS-2 has besides its user data. -/
structure Carrier where
  envelope : Envelope
  dcs : UInt8
  dcs_ucs2 : alphabetOf dcs = 2

/-- What is returned for user data that arrives in a DELIVER PDU. -/
def Carrier.receive (c : Carrier) (ud : UserData) : CResult SmsMessage :=
  decodePdu (hexText (c.envelope.deliver ud.udhi c.dcs ud.udl ud.octets))

theorem Envelope.pidStart_le (e : Envelope) : e.pidStart ≤ 291 := by
  have h1 := e.smsc_length
  have h2 := e.sender.octets_length
  have h3 := e.sender.fits
  rw [phoneNumberSize] at h3
  simp only [Envelope.pidStart, Envelope.deliverStart]
  omega

def headerInfo (header : Option UserDataHeader) : UdhInfo :=
  (header.map UserDataHeader.info).getD {}

theorem parseUdh_headerOctets (header : Option UserDataHeader) (pre post : List UInt8)
    (bufferLength : ℕ) (hfits : pre.length + (headerOctets header).length ≤ bufferLength) :
    parseUdh (pre ++ (headerOctets header ++ post)) bufferLength pre.length header.isSome =
      .ok (headerInfo header) := by
  cases header with
  | none => rfl
  | some h => exact parseUdh_eq h pre post bufferLength hfits

theorem skip_headerInfo (header : Option UserDataHeader) :
    (if (headerInfo header).present then (headerInfo header).bytes else 0) =
      (headerOctets header).length := by
  cases header with
  | none => rfl
  | some h =>
    have hinfo := h.info_present_bytes
    simp only [headerInfo, headerOctets, map_some, getD_some, hinfo, if_true]

/-- The text buffer of `pdu_decode` holds a copy of the user data. -/
theorem decodeText_ucs2 (c : Carrier) (udhi : Bool) (ud rest : List UInt8) (bufferLength : ℕ)
    (udh : UdhInfo) (hlen : ud.length ≤ 140) :
    decodeText (c.envelope.front udhi c.dcs (UInt8.ofNat ud.length) ++ (ud ++ rest)) bufferLength
      (c.envelope.pidStart + 9) c.dcs udh (List.replicate smsTextSize 0) = .ok ud := by
  have hudl := toNat_ofNat_of_lt (show ud.length < 256 by omega)
  have hroom : ¬ (replicate smsTextSize (0 : UInt8)).length < ud.length := by
    rw [length_replicate, smsTextSize]; omega
  simp only [decodeText, Envelope.readAt_udl, CResult.ok_bind, hudl, hroom, if_false, c.dcs_ucs2,
    Envelope.drop_front, take_left, ne_eq, not_true_eq_false]

/-- **What `decode_pdu` returns** for a UCS-2 message of at most 140 octets: the decoded units and
the concatenation data of the header. -/
theorem receive_ucs2 (c : Carrier) (header : Option UserDataHeader) (units : List ℕ)
    (hunits : ∀ u ∈ units, u < 0x10000) (hne : units ≠ [])
    (hlen : (headerOctets header ++ ucs2Octets units).length ≤ 140) :
    ∃ message, c.receive {
        udhi := header.isSome
        udl := UInt8.ofNat (headerOctets header ++ ucs2Octets units).length
        octets := headerOctets header ++ ucs2Octets units } = .ok message ∧
      message.smsText = units.flatMap ucs2Bytes ∧
      message.refNumber = (headerInfo header).concatRef ∧
      message.totalSegments = (headerInfo header).concatTotal ∧
      message.segmentNumber = (headerInfo header).concatPart := by
  set ud := headerOctets header ++ ucs2Octets units with hud
  have hpos : 0 < ud.length := by
    have := length_pos_iff.mpr hne
    rw [hud, length_append, length_ucs2Octets]
    omega
  set pdu := c.envelope.deliver header.isSome c.dcs (UInt8.ofNat ud.length) ud with hpdu
  have hpdulen : pdu.length = c.envelope.pidStart + 10 + ud.length := by
    simp [hpdu, Envelope.deliver, c.envelope.length_front]
  have hstart := c.envelope.pidStart_le
  -- the buffer is larger than any message
  have hfits : pdu.length ≤ smsPduHexSize := by rw [hpdulen, smsPduHexSize]; omega
  have hpdune : pdu ≠ [] := length_pos_iff.mp (by omega)
  set rest := replicate (smsPduHexSize - pdu.length) (0 : UInt8) with hrest
  obtain ⟨sender, time, hdecode⟩ := pduDecode_deliver c.envelope header.isSome c.dcs
    (UInt8.ofNat ud.length) ud rest (replicate smsTextSize 0) (length_pos_iff.mp hpos)
  have hparse := parseUdh_headerOctets header
    (c.envelope.front header.isSome c.dcs (UInt8.ofNat ud.length)) (ucs2Octets units ++ rest)
    (c.envelope.pidStart + 10 + ud.length)
    (by rw [c.envelope.length_front, hud, length_append]; omega)
  rw [c.envelope.length_front, ← append_assoc (headerOctets header), ← hud] at hparse
  -- there is room for the zero at the end
  have hterm : terminate ud (replicate smsTextSize (0 : UInt8)).length = ud ++ [0] := by
    rw [terminate, if_pos (by rw [length_replicate, smsTextSize]; omega)]
  rw [hparse, CResult.ok_bind, decodeText_ucs2 c _ ud rest _ _ hlen, CResult.ok_bind,
    skip_headerInfo, hterm] at hdecode
  refine ⟨smsOfDecoded ⟨ud.length, time, sender, ud ++ [0], c.dcs, _, _, _,
    (headerOctets header).length⟩, ?_, ?_, rfl, rfl, rfl⟩
  · rw [Carrier.receive, decodePdu_hexText hpdune hfits, ← hrest, hpdu, hdecode, CResult.ok_bind,
      if_neg hpos.ne']
  · simp only [smsOfDecoded, c.dcs_ucs2, take_left]
    rw [hud, drop_left]
    exact ucs2Text_units units hunits

/-! ## All parts -/

/-- What is returned for the parts of a message, from part `i` on, each in a PDU of its own. -/
def receiveAll (carrier : ℕ → Carrier) : ℕ → List (List UInt8) → CResult (List SmsMessage)
  | _, [] => .ok []
  | i, pdu :: pdus => do
    let message ← (carrier i).receive (submitUserData pdu)
    let messages ← receiveAll carrier (i + 1) pdus
    return message :: messages

/-- Reference, number of parts and position of a part. -/
def SmsMessage.concatenation (m : SmsMessage) : ℕ × ℕ × ℕ :=
  (m.refNumber, m.totalSegments, m.segmentNumber)

/-- The concatenation data part `i` should have. -/
def expectedConcatenation (reference total i : ℕ) : ℕ × ℕ × ℕ :=
  if 1 < total then (reference % 256, total, i + 1) else (0, 0, 0)

/-- The parts of a text come back with their concatenation data, and their texts are the text. -/
def RoundTrips (carrier : ℕ → Carrier) (text : List Char) (reference : ℕ)
    (parts : List (List UInt8)) : Prop :=
  ∃ messages, receiveAll carrier 0 parts = .ok messages ∧
    messages.map SmsMessage.concatenation =
      (List.range parts.length).map (expectedConcatenation reference parts.length) ∧
    messages.flatMap SmsMessage.smsText = utf8 text

/-- The receiver knows the part and its message by the header. -/
theorem headerInfo_partHeader {part : ℕ} (reference : ℕ) (htotal : total < 256)
    (hpart : part + 1 < 256) :
    ((headerInfo (partHeader total reference part)).concatRef,
      (headerInfo (partHeader total reference part)).concatTotal,
      (headerInfo (partHeader total reference part)).concatPart) =
      expectedConcatenation reference total part := by
  unfold partHeader expectedConcatenation
  split
  · have hkeep : ¬ total ≤ 1 := by omega
    simp only [headerInfo, map_some, getD_some, UserDataHeader.info, concatHeader,
      foldl_cons, foldl_nil, InfoElement.apply, if_true, dropSinglePart,
      toNat_ofNat_of_lt htotal, toNat_ofNat_of_lt hpart, hkeep, if_false]
    simp
  · rfl

/-- The limit on the units of a part leaves room for the header. -/
def partLimit (total : ℕ) : ℕ := if total = 1 then 70 else 67

theorem length_part_le {total part : ℕ} (reference : ℕ) (h : units.length ≤ partLimit total) :
    (headerOctets (partHeader total reference part) ++ ucs2Octets units).length ≤ 140 := by
  unfold partLimit at h
  by_cases htotal : 1 < total
  · rw [if_neg (by omega)] at h
    simp [headerOctets_many htotal]
    omega
  · simp [headerOctets_one htotal]
    split at h <;> omega

/-- Every run of the encoding loop is undone part by part, up to the conversion of single units. -/
theorem receiveAll_encodeParts (carrier : ℕ → Carrier) {number : List UInt8} {international : Bool}
    (hnumber : number.length < 256) (htotal : total < 256) :
    ∀ {n part : ℕ} {rest : List ℕ} {pdus : List (List UInt8)}, part + n ≤ total →
      (∀ units ∈ chunks (partLimit total) n rest, units ≠ []) → (∀ u ∈ rest, u < 0x10000) →
      encodeParts number international total reference n part rest = some pdus →
      pdus.length = n ∧ ∃ messages, receiveAll carrier part pdus = .ok messages ∧
        messages.map SmsMessage.concatenation =
          (List.range' part n).map (expectedConcatenation reference total) ∧
        messages.flatMap SmsMessage.smsText =
          (chunks (partLimit total) n rest).flatten.flatMap ucs2Bytes
  | 0, part, rest, pdus, _, _, _, h => by
    cases h
    exact ⟨rfl, [], rfl, rfl, rfl⟩
  | n + 1, part, rest, pdus, hroom, hne, hunits, h => by
    simp only [encodeParts, Option.bind_eq_bind, Option.bind_eq_some_iff] at h
    obtain ⟨pdu, hpdu, tail, htail, h⟩ := h
    obtain rfl := some.inj h
    have hmem : rest.take (partTake (partLimit total) rest) ∈ chunks (partLimit total) (n + 1) rest :=
      mem_cons_self
    obtain ⟨hlen, messages, hmessages, hconcat, htext⟩ :=
      receiveAll_encodeParts carrier hnumber htotal (by omega)
        (fun units hu => hne units (mem_cons_of_mem _ hu))
        (fun u hu => hunits u (mem_of_mem_drop hu)) htail
    -- the first part; the others by induction
    obtain ⟨message, hmessage, hmtext, href, htot, hpart⟩ :=
      receive_ucs2 (carrier part) (partHeader total reference part)
        (rest.take (partTake (partLimit total) rest))
        (fun u hu => hunits u (mem_of_mem_take hu)) (hne _ hmem)
        (length_part_le reference (length_of_mem_chunks hmem))
    have hinfo := headerInfo_partHeader reference htotal (show part + 1 < 256 by omega)
    refine ⟨by simp [hlen], message :: messages, ?_, ?_, ?_⟩
    · rw [receiveAll, submitUserData_encodePart hnumber hpdu]
      simp only [partLimit] at hmessage
      rw [hmessage, CResult.ok_bind, hmessages]
      rfl
    · rw [map_cons, hconcat, range'_succ, map_cons, ← hinfo, ← href, ← htot, ← hpart]
      rfl
    · rw [flatMap_cons, hmtext, htext, chunks, flatten_cons, flatMap_append]

/-! ## The encoder as a whole -/

theorem utf16_lt (text : List Char) : ∀ u ∈ utf16 text, u < 0x10000 := by
  intro u hu
  obtain ⟨c, _, hc⟩ := mem_flatMap.mp hu
  have hvalid : c.toNat < 0xd800 ∨ (0xdfff < c.toNat ∧ c.toNat < 0x110000) := c.valid
  exact unitsOf_lt (by omega) u hc

variable {text : List Char}

theorem utf16_ne_nil (h : text ≠ []) : utf16 text ≠ [] := by
  obtain ⟨c, tail, rfl⟩ := exists_cons_of_ne_nil h
  have hunits : unitsOf c.toNat ≠ [] := by
    unfold unitsOf
    split <;> simp
  simp [utf16, hunits]

/-- What an accepted text is cut into: nonempty parts within the limit that together hold all its
units. -/
theorem chunks_of_total (hne : units ≠ [])
    (htotal : total = if units.length ≤ 70 then 1 else countParts units.length units) :
    (chunks (partLimit total) total units).flatten = units ∧
      ∀ chunk ∈ chunks (partLimit total) total units, chunk ≠ [] := by
  by_cases hshort : units.length ≤ 70
  · rw [if_pos hshort] at htotal
    have hone : chunks (partLimit total) total units = [units] := by
      rw [htotal, partLimit, if_pos rfl, chunks, partTake_of_le hshort, take_length, chunks]
    rw [hone]
    exact ⟨by simp, by simpa using hne⟩
  · rw [if_neg hshort] at htotal
    have hmany := one_lt_countParts (le_refl units.length) (by omega)
    rw [show partLimit total = 67 by rw [partLimit, if_neg (by omega)], htotal]
    exact ⟨flatten_chunks_countParts le_rfl, fun chunk => ne_nil_of_mem_chunks_countParts⟩

/-- What `pdu_encode_ucs2_parts` has done when it accepts a text. -/
theorem pduEncodeUcs2Parts_eq_some (hnul : ∀ c ∈ text, c.toNat ≠ 0)
    (h : pduEncodeUcs2Parts phoneNumber (utf8 text) maxParts reference = some parts) :
    ∃ number international total, number.length ≤ 20 ∧ total ≤ smsMaxParts ∧
      total = (if (utf16 text).length ≤ 70 then 1
        else countParts (utf16 text).length (utf16 text)) ∧
      encodeParts number international total reference total 0 (utf16 text) = some parts := by
  rw [pduEncodeUcs2Parts] at h
  split at h
  · cases h
  -- the checks in front of the loop
  rename_i hguard
  rw [utf8ToUtf16_eq text hnul] at h
  split at h
  · cases h
  rename_i normalized hnormalized
  obtain ⟨-, hform, -⟩ := smsNormalizeNumber_eq_some.mp hnormalized
  by_cases hfits : (utf16 text).length ≤ smsMaxParts * 67
  · simp only [if_pos hfits] at h
    generalize htotal : (if (utf16 text).length ≤ 70 then 1
      else countParts (utf16 text).length (utf16 text)) = total at h
    split at h
    · cases h
    · simp only [Bool.or_eq_true, decide_eq_true_eq, not_or] at hguard
      have hnumber := (length_bareCode_le normalized).trans hform.length_le
      rw [bareCode, ← drop_one] at hnumber
      exact ⟨_, _, total, hnumber, by omega, rfl, h⟩
  · simp only [if_neg hfits] at h
    cases h

/-- **What comes back**: every part with its concatenation data, and together the conversion of the
single units of the text. -/
theorem receiveAll_pduEncodeUcs2Parts (carrier : ℕ → Carrier) (hne : text ≠ [])
    (hnul : ∀ c ∈ text, c.toNat ≠ 0)
    (h : pduEncodeUcs2Parts phoneNumber (utf8 text) maxParts reference = some parts) :
    ∃ messages, receiveAll carrier 0 parts = .ok messages ∧
      messages.map SmsMessage.concatenation =
        (List.range parts.length).map (expectedConcatenation reference parts.length) ∧
      messages.flatMap SmsMessage.smsText = (utf16 text).flatMap ucs2Bytes := by
  obtain ⟨number, international, total, hnumber, hmax, htotal, hparts⟩ :=
    pduEncodeUcs2Parts_eq_some hnul h
  -- nothing is lost where the text is divided, and no part is empty
  obtain ⟨hflat, hchunks⟩ := chunks_of_total (utf16_ne_nil hne) htotal
  rw [smsMaxParts] at hmax
  obtain ⟨hlen, messages, hmessages, hconcat, htext⟩ :=
    receiveAll_encodeParts carrier (by omega) (by omega) (by omega) hchunks (utf16_lt text) hparts
  rw [hflat] at htext
  rw [← range_eq_range'] at hconcat
  exact ⟨messages, hmessages, hlen ▸ hconcat, htext⟩

theorem decode_utf16 (text : List Char) :
    (utf16 text).flatMap ucs2Bytes =
      text.flatMap fun c => (unitsOf c.toNat).flatMap ucs2Bytes := by
  rw [utf16, flatMap_assoc]

/-- The conversion of single units restores a text exactly when all its characters are known. -/
theorem decode_utf16_eq_iff (text : List Char) (hnul : ∀ c ∈ text, c.toNat ≠ 0) :
    (utf16 text).flatMap ucs2Bytes = utf8 text ↔ ∀ c ∈ text, c.toNat < 0xffff := by
  rw [decode_utf16, utf8]
  constructor
  · -- a character that is dropped makes the decoded text shorter
    intro heq c hc
    by_contra hbig
    have hlt : (text.flatMap fun c => (unitsOf c.toNat).flatMap ucs2Bytes).length <
        (text.flatMap String.utf8EncodeChar).length := by
      simp only [length_flatMap]
      refine sum_lt_sum _ _ (fun d hd => ?_) ⟨c, hc, ?_⟩
      · by_cases hd' : d.toNat < 0xffff
        · rw [← length_flatMap, decode_units_known (hnul d hd) hd']
        · rw [← length_flatMap, decode_units_unknown (by omega)]
          exact Nat.zero_le _
      · rw [← length_flatMap, decode_units_unknown (by omega), String.length_utf8EncodeChar]
        exact c.utf8Size_pos
    exact absurd (congrArg length heq) hlt.ne
  · intro hsmall
    exact flatMap_congr fun c hc => decode_units_known (hnul c hc) (hsmall c hc)

/-- The round trip succeeds when the conversion of the single units restores the text. -/
theorem roundTrips_iff_decode (carrier : ℕ → Carrier) (hne : text ≠ [])
    (hnul : ∀ c ∈ text, c.toNat ≠ 0)
    (h : pduEncodeUcs2Parts phoneNumber (utf8 text) maxParts reference = some parts) :
    RoundTrips carrier text reference parts ↔ (utf16 text).flatMap ucs2Bytes = utf8 text := by
  obtain ⟨messages, hmessages, hconcat, htext⟩ :=
    receiveAll_pduEncodeUcs2Parts carrier hne hnul h
  rw [← htext]
  constructor
  · rintro ⟨messages', hmessages', _, htext'⟩
    rw [hmessages] at hmessages'
    rwa [Except.ok.inj hmessages']
  · intro heq
    exact ⟨messages, hmessages, hconcat, heq⟩

/-- **Which texts survive the round trip**: exactly those whose characters are all below `U+FFFF`.
-/
theorem ucs2_roundTrips_iff (carrier : ℕ → Carrier) {phoneNumber : List UInt8} {text : List Char}
    {maxParts reference : ℕ} {parts : List (List UInt8)} (hne : text ≠ [])
    (hnul : ∀ c ∈ text, c.toNat ≠ 0)
    (h : pduEncodeUcs2Parts phoneNumber (utf8 text) maxParts reference = some parts) :
    RoundTrips carrier text reference parts ↔ ∀ c ∈ text, c.toNat < 0xffff := by
  rw [roundTrips_iff_decode carrier hne hnul h, decode_utf16_eq_iff text hnul]

/-- A DELIVER PDU from the number 12 with the UCS-2 coding scheme. -/
def plainCarrier : Carrier where
  envelope := .fromTwelve
  dcs := 0x08
  dcs_ucs2 := by decide

/-- The text `A短`, sent to 10086, survives. -/
theorem ucs2_roundTrips_short :
    RoundTrips (fun _ => plainCarrier) ['A', '短'] 7
      [[0x00, 0x11, 0x00, 0x05, 0x81, 0x01, 0x80, 0xf6, 0x00, 0x08, 0xb0, 0x04, 0x00, 0x41, 0x77,
        0xed]] := by
  have hsent : pduEncodeUcs2Parts [0x31, 0x30, 0x30, 0x38, 0x36] (utf8 ['A', '短']) 1 7 =
      some [[0x00, 0x11, 0x00, 0x05, 0x81, 0x01, 0x80, 0xf6, 0x00, 0x08, 0xb0, 0x04, 0x00, 0x41,
        0x77, 0xed]] := by decide +kernel
  exact (ucs2_roundTrips_iff _ (by simp) (by simp) hsent).mpr (by simp)

/-- The text `U+1F600`, sent to 10086, is accepted and comes back empty. -/
theorem supplementary_not_roundTrips :
    ∃ parts, pduEncodeUcs2Parts [0x31, 0x30, 0x30, 0x38, 0x36] (utf8 [Char.ofNat 0x1f600]) 1 7 =
        some parts ∧
      ¬ RoundTrips (fun _ => plainCarrier) [Char.ofNat 0x1f600] 7 parts := by
  have hsent : pduEncodeUcs2Parts [0x31, 0x30, 0x30, 0x38, 0x36] (utf8 [Char.ofNat 0x1f600]) 1 7 =
      some [[0x00, 0x11, 0x00, 0x05, 0x81, 0x01, 0x80, 0xf6, 0x00, 0x08, 0xb0, 0x04, 0xd8, 0x3d,
        0xde, 0x00]] := by decide +kernel
  refine ⟨_, hsent, ?_⟩
  rw [roundTrips_iff_decode _ (by simp) (by simp) hsent]
  decide +kernel

end QModem.Sms
