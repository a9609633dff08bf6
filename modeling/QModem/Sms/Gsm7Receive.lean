import QModem.Sms.Deliver

/-!
# Receiving a GSM 7-bit Message

User data in the GSM 7-bit alphabet is a stream of bits: the octets of the header if there is one,
fill bits up to the next septet boundary, and the septets of the text.  `decode_pdu` unpacks it to
one byte per septet and then treats the bytes as a C string, the bytes of the header included.

## Main results

- `decodePdu_gsm7`: what is returned for any such message
- `gsm7_receivedIntact_iff`: exactly which messages are returned character by character
-/

namespace QModem.Sms

open Lib List

/-! ## Messages -/

structure Gsm7UserData where
  header : Option UserDataHeader
  /-- The value of the bits between the header and the first septet of the text. -/
  fill : ℕ
  septets : List UInt8
  septets_lt : ∀ s ∈ septets, s < 128

namespace Gsm7UserData

variable (u : Gsm7UserData)

def headerOctets : List UInt8 :=
  (u.header.map UserDataHeader.octets).getD []

/-- Septets taken by the header and the fill bits. -/
def headerSeptets : ℕ := skipSeptets u.headerOctets.length

def fillBits : ℕ := 7 * u.headerSeptets - 8 * u.headerOctets.length

/-- The user data length field counts septets. -/
def udl : ℕ := u.headerSeptets + u.septets.length

/-- The whole bit stream as a number. -/
def value : ℕ :=
  (Nat.ofDigits (2 ^ 8) (u.headerOctets.map UInt8.toNat) + u.fill * 2 ^ (8 * u.headerOctets.length)) +
    Nat.ofDigits (2 ^ 7) (u.septets.map UInt8.toNat) * 2 ^ (7 * u.headerSeptets)

def octets : List UInt8 :=
  (digitList 8 u.value ((7 * u.udl + 7) / 8)).map UInt8.ofNat

/-- What the header says; nothing when there is none. -/
def info : UdhInfo :=
  (u.header.map UserDataHeader.info).getD {}

/-- The table entries for the text, `0` where the tables define no character. -/
def chars : List UInt8 :=
  gsm7Chars u.info.turkishLocking u.info.turkishSingle u.septets

/-- The header of a part of a concatenated message. -/
def IsConcatPart : Prop :=
  ∃ ref total part, u.headerOctets = [0x05, 0x00, 0x03, ref, total, part]

def withoutHeader : Gsm7UserData where
  header := none
  fill := 0
  septets := u.septets
  septets_lt := u.septets_lt

end Gsm7UserData

open Gsm7UserData

/-- A DELIVER message in the GSM 7-bit alphabet that fits the buffers of `decode_pdu`. -/
structure Gsm7Message where
  envelope : Envelope
  dcs : UInt8
  dcs_gsm7 : alphabetOf dcs = 0
  data : Gsm7UserData
  fill_lt : data.fill < 2 ^ data.fillBits
  udl_lt : data.udl < 256
  fits : envelope.pidStart + 10 + data.octets.length ≤ smsPduHexSize

namespace Gsm7Message

def pdu (m : Gsm7Message) : List UInt8 :=
  m.envelope.deliver m.data.header.isSome m.dcs (UInt8.ofNat m.data.udl) m.data.octets

/-- The text `decode_pdu` returns for the message, if it returns one. -/
def text (m : Gsm7Message) : Option (List UInt8) :=
  (decodePdu (hexText m.pdu)).toOption.map SmsMessage.smsText

end Gsm7Message

/-! ## The bit stream -/

namespace Gsm7UserData

variable (u : Gsm7UserData)

theorem septet_span : 8 * u.headerOctets.length ≤ 7 * u.headerSeptets := by
  simp only [headerSeptets, skipSeptets]
  split <;> omega

theorem bytes_lt (bytes : List UInt8) : ∀ d ∈ bytes.map UInt8.toNat, d < 2 ^ 8 := by
  intro d hd
  obtain ⟨b, _, rfl⟩ := mem_map.mp hd
  exact b.toNat_lt

theorem septetValues_lt : ∀ d ∈ u.septets.map UInt8.toNat, d < 2 ^ 7 := by
  intro d hd
  obtain ⟨b, hb, rfl⟩ := mem_map.mp hd
  exact UInt8.lt_iff_toNat_lt.mp (u.septets_lt b hb)

theorem headerValue_lt : Nat.ofDigits (2 ^ 8) (u.headerOctets.map UInt8.toNat) <
    2 ^ (8 * u.headerOctets.length) := by
  simpa using ofDigits_lt (by norm_num : 0 < 8) _ (bytes_lt u.headerOctets)

variable {u}

/-- Header and fill bits stay below the first septet of the text. -/
theorem front_lt (hfill : u.fill < 2 ^ u.fillBits) :
    Nat.ofDigits (2 ^ 8) (u.headerOctets.map UInt8.toNat) +
      u.fill * 2 ^ (8 * u.headerOctets.length) < 2 ^ (7 * u.headerSeptets) := by
  have hspan := u.septet_span
  have hhead := u.headerValue_lt
  have hexp : 2 ^ (7 * u.headerSeptets) = 2 ^ u.fillBits * 2 ^ (8 * u.headerOctets.length) := by
    rw [← pow_add, fillBits]
    congr 1
    omega
  calc _ < 2 ^ (8 * u.headerOctets.length) + u.fill * 2 ^ (8 * u.headerOctets.length) := by omega
    _ = (u.fill + 1) * 2 ^ (8 * u.headerOctets.length) := by ring
    _ ≤ 2 ^ u.fillBits * 2 ^ (8 * u.headerOctets.length) := Nat.mul_le_mul_right _ hfill
    _ = _ := hexp.symm

/-- The septets behind the header are the text. -/
theorem drop_septetsOf (hfill : u.fill < 2 ^ u.fillBits) :
    (septetsOf u.value u.udl).drop u.headerSeptets = u.septets := by
  apply ext_getElem
  · simp [udl]
  · intro k hk hk'
    have hdigit : digit 7 u.value (u.headerSeptets + k) =
        digit 7 (Nat.ofDigits (2 ^ 7) (u.septets.map UInt8.toNat)) k :=
      digit_add_mul_two_pow_high (front_lt hfill) rfl
    have hback := digit_ofDigits 7 _ u.septetValues_lt k (by simpa using hk')
    simp only [getElem_drop, septetsOf, getElem_map, digitList_getElem, hdigit, hback]
    simp

/-- The octets of the user data start with the header. -/
theorem octets_eq (hfill : u.fill < 2 ^ u.fillBits) :
    ∃ post, u.octets = u.headerOctets ++ post := by
  refine ⟨u.octets.drop u.headerOctets.length, ?_⟩
  have hspan := u.septet_span
  have hlen : u.headerOctets.length ≤ u.octets.length := by
    simp only [octets, length_map, length_digitList, udl]
    omega
  have htake : u.octets.take u.headerOctets.length = u.headerOctets := by
    apply ext_getElem
    · simpa using hlen
    · intro i hi hi'
      -- neither the fill bits nor the text reach into the header
      have hlow : digit 8 u.value i =
          digit 8 (Nat.ofDigits (2 ^ 8) (u.headerOctets.map UInt8.toNat)) i := by
        rw [value, digit_add_mul_two_pow_low (front_lt hfill) (by omega)]
        exact digit_add_mul_two_pow_low u.headerValue_lt (by omega)
      have hback := digit_ofDigits 8 _ (bytes_lt u.headerOctets) i (by simpa using hi')
      simp only [getElem_take, octets, getElem_map, digitList_getElem, hlow, hback]
      simp
  rw [← htake, length_take, Nat.min_eq_left hlen, take_append_drop]

theorem holdsOctets (rest : List UInt8) :
    HoldsOctets (u.octets ++ rest) u.value u.octets.length := by
  intro i hi
  rw [getElem?_append_left hi, getElem?_eq_getElem hi]
  simp [octets, digitList_getElem]

theorem length_octets : u.octets.length = (7 * u.udl + 7) / 8 := by
  simp [octets]

theorem headerSeptets_eq_zero_iff : u.headerSeptets = 0 ↔ u.header = none := by
  cases hheader : u.header with
  | none => simp [headerSeptets, headerOctets, hheader, skipSeptets]
  | some h =>
    have hpos : 0 < (h.octets.length * 8 + 6) / 7 := by
      simp only [UserDataHeader.octets, length_cons]; omega
    have hlen : 0 < h.octets.length := by simp [UserDataHeader.octets]
    simp [headerSeptets, headerOctets, hheader, skipSeptets, hlen]
    omega

/-- There is user data as soon as there is a header or a septet. -/
theorem octets_eq_nil_iff : u.octets = [] ↔ u.header = none ∧ u.septets = [] := by
  rw [← headerSeptets_eq_zero_iff, ← length_eq_zero_iff, length_octets,
    ← length_eq_zero_iff (l := u.septets), udl]
  omega

/-- The bytes the decoder leaves in the text buffer for the header and the fill bits. -/
def headerText (u : Gsm7UserData) : List UInt8 :=
  (septetsOf u.value u.udl).take u.headerSeptets

@[simp] theorem length_headerText : u.headerText.length = u.headerSeptets := by
  simp [headerText, udl]

theorem skip_info :
    skipSeptets (if u.info.present then u.info.bytes else 0) = u.headerSeptets := by
  cases hheader : u.header with
  | none => simp [info, headerSeptets, headerOctets, hheader]
  | some h =>
    obtain ⟨hpresent, hbytes⟩ := h.info_present_bytes
    simp [info, headerSeptets, headerOctets, hheader, hpresent, hbytes]

/-- `parse_udh` reports what the header of the user data says. -/
theorem parseUdh_octets (hfill : u.fill < 2 ^ u.fillBits) (pre rest : List UInt8) :
    parseUdh (pre ++ (u.octets ++ rest)) (pre.length + u.octets.length) pre.length
      u.header.isSome = .ok u.info := by
  obtain ⟨post, hpost⟩ := octets_eq hfill
  cases hheader : u.header with
  | none => simp [parseUdh_none, info, hheader]
  | some h =>
    have hoctets : u.headerOctets = h.octets := by simp [headerOctets, hheader]
    rw [hoctets] at hpost
    have hinfo : u.info = h.info := by simp [info, hheader]
    rw [hinfo, hpost, append_assoc]
    exact parseUdh_eq h pre (post ++ rest) _ (by simp)

end Gsm7UserData

/-! ## What is returned -/

variable (m : Gsm7Message)

theorem Gsm7Message.length_pdu :
    m.pdu.length = m.envelope.pidStart + 10 + m.data.octets.length := by
  simp [Gsm7Message.pdu, Envelope.deliver, m.envelope.length_front]

theorem Gsm7Message.pdu_ne_nil : m.pdu ≠ [] := by
  intro h
  have := m.length_pdu
  rw [h, length_nil] at this
  omega

/-- The text buffer of `pdu_decode` holds the septets of the header followed by the characters. -/
theorem decodeText_gsm7 (hne : m.data.octets ≠ []) {t : List UInt8}
    (ht : g7bitToAscii m.data.info.turkishLocking m.data.info.turkishSingle m.data.septets = .ok t)
    (rest : List UInt8) :
    decodeText (m.envelope.front m.data.header.isSome m.dcs (UInt8.ofNat m.data.udl) ++
        (m.data.octets ++ rest)) (m.envelope.pidStart + 10 + m.data.octets.length)
      (m.envelope.pidStart + 9) m.dcs m.data.info (List.replicate smsTextSize 0) =
      .ok (m.data.headerText ++ t) := by
  have hudl := toNat_ofNat_of_lt m.udl_lt
  have hlen := m.data.length_octets
  have hpos : 0 < m.data.octets.length := length_pos_iff.mpr hne
  have hunpack := decodePDUMessageGSM7bit_eq (m.data.holdsOctets rest) (m := m.data.udl)
    (by omega) hlen
  have hroom : ¬ (replicate smsTextSize (0 : UInt8)).length < m.data.udl := by
    have := m.udl_lt
    rw [length_replicate, smsTextSize]; omega
  -- the header is counted in septets, too
  have hskip : ¬ m.data.headerSeptets > m.data.udl := by simp [udl]
  have hsub : m.envelope.pidStart + 10 + m.data.octets.length - (m.envelope.pidStart + 10) =
      m.data.octets.length := by omega
  simp only [decodeText, Envelope.readAt_udl, CResult.ok_bind, hudl, hroom, if_false, m.dcs_gsm7,
    Envelope.drop_front, hsub, hunpack, length_septetsOf, ne_eq, not_true_eq_false,
    skip_info, hskip, drop_septetsOf m.fill_lt, ht]
  rfl

/-- `decode_pdu` on a message with user data: a text of no bytes is refused, and every other one is
the part behind the header of the C string that starts with the septets of the header. -/
theorem decodePdu_gsm7_eq (hne : m.data.octets ≠ []) :
    ∃ t message,
      g7bitToAscii m.data.info.turkishLocking m.data.info.turkishSingle m.data.septets = .ok t ∧
      (t = m.data.chars ∨ t ++ [0] = m.data.chars) ∧
      decodePdu (hexText m.pdu) =
        (if m.data.headerSeptets + t.length = 0 then .error (.code 0) else .ok message) ∧
      message.smsText = (cString (m.data.headerText ++ t ++ [0])).drop m.data.headerSeptets := by
  have hfits : m.pdu.length ≤ smsPduHexSize := by rw [m.length_pdu]; exact m.fits
  set rest := replicate (smsPduHexSize - m.pdu.length) (0 : UInt8) with hrest
  obtain ⟨t, ht, hcase⟩ := g7bitToAscii_eq m.data.info.turkishLocking m.data.info.turkishSingle
    m.data.septets m.data.septets_lt
  change t = m.data.chars ∨ t ++ [0] = m.data.chars at hcase
  have htext := decodeText_gsm7 m hne ht rest
  obtain ⟨sender, time, hdecode⟩ := pduDecode_deliver m.envelope m.data.header.isSome m.dcs
    (UInt8.ofNat m.data.udl) m.data.octets rest (replicate smsTextSize 0) hne
  have hparse := parseUdh_octets m.fill_lt
    (m.envelope.front m.data.header.isSome m.dcs (UInt8.ofNat m.data.udl)) rest
  rw [m.envelope.length_front] at hparse
  rw [hparse, CResult.ok_bind, htext, CResult.ok_bind] at hdecode
  have hlen : (m.data.headerText ++ t).length = m.data.headerSeptets + t.length := by simp
  have hterm : terminate (m.data.headerText ++ t) (replicate smsTextSize (0 : UInt8)).length =
      m.data.headerText ++ t ++ [0] := by
    have hlt : t.length ≤ m.data.septets.length := by
      have hchars : m.data.chars.length ≤ m.data.septets.length := by
        simpa [chars, gsm7Chars] using length_gsm7Items_le m.data.septets
      rcases hcase with rfl | hcase
      · exact hchars
      · have := congrArg length hcase
        simp at this; omega
    have hudl := m.udl_lt
    rw [udl] at hudl
    -- so the text always leaves room for its terminating zero byte
    rw [terminate, if_pos (by rw [hlen, length_replicate, smsTextSize]; omega)]
  rw [hterm, hlen] at hdecode
  refine ⟨t, smsOfDecoded ⟨m.data.headerSeptets + t.length, time, sender,
    m.data.headerText ++ t ++ [0], m.dcs, m.data.info.concatRef, m.data.info.concatTotal,
    m.data.info.concatPart, if m.data.info.present then m.data.info.bytes else 0⟩, ht, hcase, ?_, ?_⟩
  · rw [decodePdu_hexText m.pdu_ne_nil hfits, ← hrest]
    unfold Gsm7Message.pdu
    rw [hdecode]
    rfl
  · simp [smsOfDecoded, m.dcs_gsm7, skip_info]

/-- **What `decode_pdu` returns** for a message in the GSM 7-bit alphabet: the part behind the
header of the C string that starts with the septets of the header. -/
theorem decodePdu_gsm7 (hne : m.data.octets ≠ []) :
    ∃ t, (t = m.data.chars ∨ t ++ [0] = m.data.chars) ∧
      m.text = if m.data.headerSeptets + t.length = 0 then none
        else some ((cString (m.data.headerText ++ t ++ [0])).drop m.data.headerSeptets) := by
  obtain ⟨t, message, -, hcase, hdecoded, htext⟩ := decodePdu_gsm7_eq m hne
  refine ⟨t, hcase, ?_⟩
  rw [Gsm7Message.text, hdecoded]
  split
  · rfl
  · rw [← htext]
    rfl

/-- Nothing is returned for a message without any user data. -/
theorem text_eq_none_of_empty (h : m.data.octets = []) : m.text = none := by
  have hfits : m.pdu.length ≤ smsPduHexSize := by rw [m.length_pdu]; exact m.fits
  rw [Gsm7Message.text, decodePdu_hexText m.pdu_ne_nil hfits]
  unfold Gsm7Message.pdu
  rw [h, pduDecode_deliver_nil]
  rfl

/-! ## Which messages arrive intact -/

namespace Gsm7Message

/-- The same septets sent without the header. -/
def withoutHeader (m : Gsm7Message) : Gsm7Message where
  envelope := m.envelope
  dcs := m.dcs
  dcs_gsm7 := m.dcs_gsm7
  data := m.data.withoutHeader
  fill_lt := by simp [Gsm7UserData.withoutHeader]
  udl_lt := by
    have := m.udl_lt
    simp only [Gsm7UserData.udl, Gsm7UserData.withoutHeader, Gsm7UserData.headerSeptets] at this ⊢
    simp [Gsm7UserData.headerOctets, skipSeptets]
    omega
  fits := by
    have := m.fits
    rw [Gsm7UserData.length_octets] at this ⊢
    simp only [Gsm7UserData.udl, Gsm7UserData.withoutHeader, Gsm7UserData.headerSeptets] at this ⊢
    simp only [Gsm7UserData.headerOctets, skipSeptets, Option.map_none, Option.getD_none,
      List.length_nil]
    simp only [gt_iff_lt, lt_self_iff_false, if_false]
    omega

/-- The message arrives intact: one character for each septet or escape pair behind the header, the
table's character wherever the tables have one, and for a part of a concatenated message the same
text as without the header. -/
def ReceivedIntact (m : Gsm7Message) : Prop :=
  ∃ text, m.text = some text ∧
    text.length = (gsm7Items m.data.septets).length ∧
    (∀ (i : ℕ) (c : UInt8), m.data.chars[i]? = some c → c ≠ 0 → text[i]? = some c) ∧
    (m.data.IsConcatPart → m.withoutHeader.text = some text)

/-- The messages that arrive intact: there is user data, every septet or escape pair has a table
entry, the header leaves no zero byte in front of a text, and it is not the concatenation header. -/
structure Readable (m : Gsm7Message) : Prop where
  nonempty : m.data.header.isSome ∨ m.data.septets ≠ []
  defined : 0 ∉ m.data.chars
  visible : 0 ∉ m.data.headerText ∨ m.data.septets = []
  single : ¬ m.data.IsConcatPart

end Gsm7Message

/-- The concatenation header leaves a zero byte in the text buffer: its second septet consists of
bits of the octets `05` and `00` only. -/
theorem zero_mem_headerText_of_concat (m : Gsm7Message) (h : m.data.IsConcatPart) :
    0 ∈ m.data.headerText := by
  obtain ⟨ref, total, part, hoctets⟩ := h
  obtain ⟨post, hpost⟩ := octets_eq m.fill_lt
  rw [hoctets] at hpost
  have hseptets : m.data.headerSeptets = 7 := by simp [headerSeptets, hoctets, skipSeptets]
  have hholds := m.data.holdsOctets []
  have hlen : 2 ≤ m.data.octets.length := by rw [hpost]; simp
  have h0 := hholds 0 (by omega)
  have h1 := hholds 1 (by omega)
  rw [hpost] at h0 h1
  simp only [cons_append, getElem?_cons_zero, getElem?_cons_succ, Option.some.injEq] at h0 h1
  have hd0 : digit 8 m.data.value 0 = 5 := by rw [← toNat_octet, ← h0]; rfl
  have hd1 : digit 8 m.data.value 1 = 0 := by rw [← toNat_octet, ← h1]; rfl
  -- the second septet is made of the octets 5 and 0
  have hseptet := septet_of_neighbours (V := m.data.value) (k := 1) (i := 0) (c := 1)
    (by norm_num) (by norm_num) (by norm_num)
  rw [hd0, hd1] at hseptet
  have hmem : m.data.headerText[1]? = some 0 := by
    rw [headerText, getElem?_take_of_lt (by omega),
      getElem?_eq_getElem (by simp [udl, hseptets]; omega)]
    simp [septetsOf, digitList_getElem, ← hseptet]
  exact mem_of_getElem? hmem

/-- A zero byte in front of the text hides all of it. -/
theorem hidden_text {front t : List UInt8} (h : (0 : UInt8) ∈ front) :
    (cString (front ++ t ++ [0])).drop front.length = [] := by
  apply drop_eq_nil_of_le
  rw [append_assoc]
  exact (strlen_append_lt h (t ++ [0])).le

theorem length_takeWhile_lt {cs : List UInt8} (h : (0 : UInt8) ∈ cs) :
    (cs.takeWhile (· ≠ 0)).length < cs.length := by
  have := strlen_append_lt h []
  simpa [strlen, cString] using this

/-- Behind a header without a zero the text goes up to its own first zero. -/
theorem cString_text {front t cs : List UInt8} (hfront : (0 : UInt8) ∉ front)
    (hcase : t = cs ∨ t ++ [0] = cs) :
    (cString (front ++ t ++ [0])).drop front.length = cs.takeWhile (· ≠ 0) := by
  have hall : ∀ b ∈ front, decide (b ≠ 0) = true := by
    intro b hb
    simpa using fun h0 : b = 0 => hfront (h0 ▸ hb)
  rw [cString, append_assoc, takeWhile_append_of_pos hall, drop_left]
  -- an escape at the end was dropped, or not
  rcases hcase with rfl | rfl
  · rw [takeWhile_append]
    split
    · rename_i hlen
      rw [(List.takeWhile_prefix _).eq_of_length hlen]
      simp
    · rfl
  · rfl

namespace Gsm7UserData

theorem length_chars (u : Gsm7UserData) : u.chars.length = (gsm7Items u.septets).length := by
  simp [chars, gsm7Chars]

theorem chars_eq_nil_iff {u : Gsm7UserData} : u.chars = [] ↔ u.septets = [] := by
  simp [chars, gsm7Chars, gsm7Items_eq_nil_iff]

end Gsm7UserData

variable {m : Gsm7Message}

/-- A text that arrived intact was not behind a zero byte of the header. -/
theorem visible_of_length {t : List UInt8}
    (hlen : ((cString (m.data.headerText ++ t ++ [0])).drop m.data.headerText.length).length =
      m.data.chars.length) : 0 ∉ m.data.headerText ∨ m.data.septets = [] := by
  by_cases hzero : (0 : UInt8) ∈ m.data.headerText
  · right
    rw [hidden_text hzero, length_nil] at hlen
    exact chars_eq_nil_iff.mp (length_eq_zero_iff.mp hlen.symm)
  · exact .inl hzero

/-- A text that arrives intact had to be readable. -/
theorem readable_of_receivedIntact (h : m.ReceivedIntact) : m.Readable := by
  obtain ⟨text, htext, hlen, _, hconcat⟩ := h
  have hne : m.data.octets ≠ [] := by
    intro h
    rw [text_eq_none_of_empty m h] at htext
    cases htext
  obtain ⟨t, hcase, hdecoded⟩ := decodePdu_gsm7 m hne
  rw [hdecoded] at htext
  split at htext
  · cases htext
  · obtain rfl := Option.some.inj htext
    rw [← m.data.length_headerText, ← m.data.length_chars] at hlen
    have hvisible := visible_of_length hlen
    refine ⟨?_, ?_, hvisible, ?_⟩
    · rw [ne_eq, octets_eq_nil_iff, not_and_or] at hne
      rcases hne with hheader | hseptets
      · exact .inl (Option.isSome_iff_ne_none.mpr hheader)
      · exact .inr hseptets
    · intro hmem
      rcases hvisible with hfront | hseptets
      · rw [cString_text hfront hcase] at hlen
        have := length_takeWhile_lt hmem
        omega
      · rw [chars_eq_nil_iff.mpr hseptets] at hmem
        cases hmem
    · -- the concatenation header hides every text, and without it an empty text is no message
      intro hpart
      have hseptets : m.data.septets = [] :=
        hvisible.resolve_left fun hfront => hfront (zero_mem_headerText_of_concat m hpart)
      have hempty : m.withoutHeader.data.octets = [] :=
        octets_eq_nil_iff.mpr ⟨rfl, hseptets⟩
      have hnone := text_eq_none_of_empty m.withoutHeader hempty
      rw [hconcat hpart] at hnone
      cases hnone

/-- A readable message is returned as the table entries of its septets. -/
theorem text_of_readable (h : m.Readable) : m.text = some m.data.chars := by
  obtain ⟨hnonempty, hdefined, hvisible, _⟩ := h
  have hne : m.data.octets ≠ [] := by
    rw [ne_eq, octets_eq_nil_iff]
    rintro ⟨hheader, hseptets⟩
    rcases hnonempty with h | h
    · simp [hheader] at h
    · exact h hseptets
  obtain ⟨t, hcase, hdecoded⟩ := decodePdu_gsm7 m hne
  have ht : t = m.data.chars := by
    rcases hcase with h | h
    · exact h
    · exact absurd (h ▸ mem_append_right t (mem_singleton_self 0)) hdefined
  have htake : m.data.chars.takeWhile (· ≠ 0) = m.data.chars :=
    cString_eq_self fun b hb h0 => hdefined (h0 ▸ hb)
  have htext : (cString (m.data.headerText ++ t ++ [0])).drop m.data.headerSeptets =
      m.data.chars := by
    rw [← m.data.length_headerText]
    -- a zero in the header hides the text, so there is none
    by_cases hzero : (0 : UInt8) ∈ m.data.headerText
    · rw [hidden_text hzero, chars_eq_nil_iff.mpr (hvisible.resolve_left fun h => h hzero)]
    · rw [cString_text hzero hcase, htake]
  have hpos : ¬ m.data.headerSeptets + t.length = 0 := by
    intro h
    obtain ⟨hfront, hchars⟩ := Nat.add_eq_zero_iff.mp h
    rw [ht, length_eq_zero_iff] at hchars
    exact hne (octets_eq_nil_iff.mpr
      ⟨headerSeptets_eq_zero_iff.mp hfront, chars_eq_nil_iff.mp hchars⟩)
  rw [hdecoded, if_neg hpos, htext]

/-- **Which GSM 7-bit messages arrive intact**: exactly the readable ones. -/
theorem gsm7_receivedIntact_iff (m : Gsm7Message) : m.ReceivedIntact ↔ m.Readable := by
  constructor
  · exact readable_of_receivedIntact
  · intro h
    exact ⟨m.data.chars, text_of_readable h, m.data.length_chars, fun i c hc _ => hc,
      fun hpart => absurd hpart h.single⟩

/-- Part 1 of 2 of a concatenated message with the single septet `A`. -/
def concatPartA : Gsm7Message where
  envelope := .fromTwelve
  dcs := 0
  dcs_gsm7 := by decide
  data := {
    header := some { elements := [⟨0x00, [0x2a, 0x02, 0x01], by decide⟩], fits := by decide }
    fill := 0
    septets := [0x41]
    septets_lt := by decide +kernel }
  fill_lt := by decide
  udl_lt := by decide
  fits := by decide

/-- The text of a part of a concatenated message is lost: nothing is returned for the `A`. -/
theorem concatPartA_not_receivedIntact :
    concatPartA.text = some [] ∧ concatPartA.withoutHeader.text = some [0x41] ∧
      ¬ concatPartA.ReceivedIntact := by
  refine ⟨by decide +kernel, by decide +kernel, ?_⟩
  intro h
  exact (readable_of_receivedIntact h).single ⟨0x2a, 0x02, 0x01, rfl⟩

end QModem.Sms
