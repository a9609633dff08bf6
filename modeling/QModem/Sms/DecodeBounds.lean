import QModem.Sms.DecodeMemory
import QModem.Sms.Deliver

/-!
# Which Messages Keep `pdu_decode` Inside Its Buffers

`pdu_decode` compares the length of the message with the place of its first octet and with the place
of the user data.  Between the two it reads the address and the time without a comparison, and
behind them it copies as many octets of a UCS-2 text as the message announces.

- `StaysInside` is what a message has to satisfy for all accesses to be inside.
- `parseUdh_inside`: the elements of a user data header are never the problem.
- `pduDecodeInto_inside_iff`: the condition is exact, for every byte string.
-/

namespace QModem.Sms

open Lib CResult

/-! ## What has to be inside -/

/-- An octet of the message, zero behind its end. -/
def octetAt (bytes : List UInt8) (i : ℕ) : UInt8 := bytes.getD i 0

/-- Where the first octet of the DELIVER part stands. -/
def deliverStart (bytes : List UInt8) : ℕ := 1 + (octetAt bytes 0).toNat

/-- The length of the sender, as the message gives it. -/
def senderLength (bytes : List UInt8) : ℕ := (octetAt bytes (deliverStart bytes + 1)).toNat

def pidStart (bytes : List UInt8) : ℕ := deliverStart bytes + 3 + (senderLength bytes + 1) / 2

def userDataStart (bytes : List UInt8) : ℕ := pidStart bytes + 10

/-- The length of the user data, as the message gives it. -/
def userDataLength (bytes : List UInt8) : ℕ := (octetAt bytes (pidStart bytes + 9)).toNat

/-- The message is given up before its text is copied, or a UCS-2 text is all there. -/
def TextInside (bytes : List UInt8) (textSize : ℕ) : Prop :=
  bytes.length ≤ userDataStart bytes ∨
    (∃ rc, parseUdh bytes bytes.length (userDataStart bytes)
      (octetAt bytes (deliverStart bytes) &&& 0x40 ≠ 0) = .error (.code rc)) ∨
    textSize < userDataLength bytes ∨
    (alphabetOf (octetAt bytes (pidStart bytes + 1)) = 2 →
      userDataStart bytes + userDataLength bytes ≤ bytes.length)

/-- The message is given up before its address, or the length of the address is there and the
address is given up or complete. -/
def StaysInside (bytes : List UInt8) (senderSize textSize : ℕ) : Prop :=
  bytes.length = 0 ∨ bytes.length < deliverStart bytes + 1 ∨
    deliverStart bytes + 2 ≤ bytes.length ∧
      (senderSize < senderLength bytes + 1 ∨
        pidStart bytes + 8 ≤ bytes.length ∧
        (octetAt bytes (deliverStart bytes + 2) = typeOfAddressAlphanumeric →
          0 < senderLength bytes) ∧
        TextInside bytes textSize)

/-! ## The header and the fields without a check -/

theorem readAt_octetAt {bytes : List UInt8} {i : ℕ} (h : i < bytes.length) :
    readAt bytes i = .ok (octetAt bytes i) := by
  rw [readAt_of_lt h, octetAt, List.getD_eq_getElem _ _ h]

/-- The header is read within the octets that were received. -/
theorem parseUdh_inside (buffer : List UInt8) (start : ℕ) (hasUdh : Bool) :
    parseUdh buffer buffer.length start hasUdh ≠ .error .outOfBounds := by
  cases hasUdh with
  | false => simp [parseUdh_none]
  | true =>
    have hresult := @parseUdh_result buffer buffer start (by
      exact List.take_prefix _ _)
    by_cases hheader : ∃ h : UserDataHeader, declaredHeader buffer start = h.octets
    · obtain ⟨h, hheader⟩ := hheader
      simp [hresult.elements h rfl hheader]
    · rw [hresult.reject rfl (not_exists.mp hheader)]
      simp

variable (locking : Bool) (buffer : List UInt8)

/-- Unpacking fails only by a read outside of the buffer. -/
theorem decodePDULoop_noCode (m : ℕ) :
    ∀ (n i c : ℕ) (out : List UInt8), CResult.NoCode (decodePDULoop buffer m n i c out) := by
  intro n
  induction n with
  | zero => exact fun i c out => noCode_ok _
  | succ n ih =>
    intro i c out
    apply (noCode_readAt buffer i).bind
    intro hi
    apply (noCode_readAt buffer (i - 1)).bind
    intro lo
    dsimp only
    -- the text is full, the octet holds another whole septet, or the loop goes on
    split
    · exact noCode_ok _
    split
    · split
      · exact noCode_ok _
      · exact ih _ _ _
    · exact ih _ _ _

/-- This holds for the first and the last septet, too. -/
theorem decodePDUMessageGSM7bit_noCode (bufferLength m : ℕ) :
    CResult.NoCode (decodePDUMessageGSM7bit buffer bufferLength m) := by
  have hrest : ∀ first : List UInt8, NoCode (if m > 1 then do
      let r ← decodePDULoop buffer m (bufferLength - 1) 1 1 first
      if r.1.length < m then
        let lo ← readAt buffer (r.2.1 - 1)
        return r.1 ++ [UInt8.ofNat (lo.toNat >>> (8 - r.2.2))]
      else return r.1
    else return first) := by
    intro first
    split
    · apply (decodePDULoop_noCode buffer m _ 1 1 first).bind
      rintro ⟨out, i, c⟩
      split
      · exact (noCode_readAt buffer (i - 1)).bind fun lo => noCode_ok _
      · exact noCode_ok _
    · exact noCode_ok _
  -- the first septet is written in front of the loop if there is an octet at all
  unfold decodePDUMessageGSM7bit
  dsimp only
  split
  · have hfirst : NoCode ((readAt buffer 0).map fun b => [UInt8.ofNat (b.toNat &&& 0x7f)]) :=
      (noCode_readAt buffer 0).bind fun b => noCode_ok _
    exact hfirst.bind hrest
  · exact hrest []

theorem basicChar_noCode (value : UInt8) : CResult.NoCode (basicChar locking value) := by
  unfold basicChar gsm7LockingToLatin1
  split
  · split
    · exact noCode_ok _
    · exact noCode_readAt _ _
  · exact noCode_readAt _ _

/-- The tables never refuse a septet. -/
theorem g7bitToAscii_noCode (single : Bool) (septets : List UInt8) :
    CResult.NoCode (g7bitToAscii locking single septets) := by
  induction septets using gsm7Items.induct with
  | case1 => exact noCode_ok []
  | case2 => exact noCode_ok []
  -- an escaped character comes from the second table
  | case3 x rest ih =>
    have hesc : gsm7bitsEscape < 128 := by decide
    apply (noCode_readAt _ x.toNat).bind
    intro c
    exact ih.bind fun text => noCode_ok _
  | case4 b rest hb ih =>
    rw [g7bitToAscii.eq_def]
    simp only [hb, if_false]
    split
    · apply (basicChar_noCode locking b).bind
      intro c
      exact ih.bind fun text => noCode_ok _
    · exact ih.bind fun text => noCode_ok _

/-- Nor does the address have an error of its own. -/
theorem decodeSender_noCode (typeOfAddress : UInt8) (n : ℕ) :
    CResult.NoCode (decodeSender buffer typeOfAddress n) := by
  unfold decodeSender
  split
  · apply (decodePDUMessageGSM7bit_noCode buffer _ n).bind
    intro name
    split
    · exact noCode_outOfBounds
    · exact g7bitToAscii_noCode false false _
  · apply NoCode.mapM
    intro i
    apply (noCode_readAt buffer (i / 2)).bind
    intro b
    split <;> exact noCode_ok _

/-- Without the six octets of date and time the decoder reads behind the buffer. -/
theorem decodeTime_of_lt {buffer : List UInt8} {smsPidStart : ℕ}
    (h : buffer.length < smsPidStart + 8) :
    decodeTime buffer smsPidStart = .error .outOfBounds := by
  have hlast : readAt buffer (smsPidStart + 7) = .error .outOfBounds := readAt_of_le (by omega)
  unfold decodeTime
  -- whichever octet is the first one missing, no other failure comes before it
  iterate 5
    apply (noCode_readAt buffer _).bind_outOfBounds
    intro _ _
  rw [hlast]
  rfl

/-- With a user data length in place the decoder leaves the buffer exactly if the text is UCS-2, its
length fits into the output, and the buffer ends before it. -/
theorem decodeText_eq_outOfBounds_iff {buffer : List UInt8} {smsStart : ℕ} (tpDcs : UInt8)
    (udh : UdhInfo) (text : List UInt8) (hinside : smsStart + 1 < buffer.length) :
    decodeText buffer buffer.length smsStart tpDcs udh text = .error .outOfBounds ↔
      (octetAt buffer smsStart).toNat ≤ text.length ∧ alphabetOf tpDcs = 2 ∧
        buffer.length < smsStart + 1 + (octetAt buffer smsStart).toNat := by
  have hudl : readAt buffer smsStart = .ok (octetAt buffer smsStart) := readAt_octetAt (by omega)
  unfold decodeText
  simp only [hudl, ok_bind]
  generalize (octetAt buffer smsStart).toNat = udl
  by_cases hroom : text.length < udl
  · simp [hroom]
  rw [if_neg hroom]
  split
  · -- GSM 7 bit: the number of octets is the one that was received, and every septet has an entry
    rename_i halphabet
    obtain ⟨decoded, hdecoded, -, hall⟩ :=
      @decodePDUMessageGSM7bit_total (buffer.drop (smsStart + 1)) (buffer.length - (smsStart + 1))
        udl (by omega) (by simp)
    simp only [hdecoded, ok_bind, halphabet]
    generalize skipSeptets (if udh.present = true then udh.bytes else 0) = skip
    split
    · simp
    split
    · simp
    · obtain ⟨chars, hchars, -⟩ := g7bitToAscii_eq udh.turkishLocking udh.turkishSingle
        (decoded.drop skip) fun b hb => hall b (List.mem_of_mem_drop hb)
      simp [hchars]
  · rename_i halphabet
    -- UCS-2: the octets are copied as the length says
    have hlen : ((buffer.drop (smsStart + 1)).take udl).length =
        min udl (buffer.length - (smsStart + 1)) := by simp
    split
    · simp [halphabet]
      omega
    · simp [halphabet]
      omega
  · rename_i h0 h2
    simp [show alphabetOf tpDcs ≠ 2 from h2]

/-- Behind the address, only the copy of a UCS-2 text leaves the message. -/
theorem decodeBody_eq_outOfBounds_iff {bytes : List UInt8} (sender text : List UInt8)
    (hpid : pidStart bytes + 8 ≤ bytes.length) :
    decodeBody bytes bytes.length (deliverStart bytes) (pidStart bytes) sender text =
        .error .outOfBounds ↔ ¬ TextInside bytes text.length := by
  obtain ⟨time, htime⟩ := decodeTime_of_room hpid
  have hdeliver : deliverStart bytes < pidStart bytes := by
    unfold pidStart
    omega
  simp only [decodeBody, htime, ok_bind, ge_iff_le]
  rw [show pidStart bytes + 2 + 7 + 1 = userDataStart bytes from rfl]
  by_cases hshort : bytes.length ≤ userDataStart bytes
  · simp [TextInside, hshort]
  rw [if_neg hshort, readAt_octetAt (by omega), ok_bind, readAt_octetAt (by omega)]
  -- what remains after the time stamp: the header, then the text
  cases hudh : parseUdh bytes bytes.length (userDataStart bytes)
      (octetAt bytes (deliverStart bytes) &&& 0x40 ≠ 0) with
  | error f =>
    cases f with
    | code rc =>
      have hinside : TextInside bytes text.length := .inr (.inl ⟨rc, hudh⟩)
      simp only [hinside, not_true, iff_false]
      intro h
      cases h
    | outOfBounds => exact absurd hudh (parseUdh_inside _ _ _)
  | ok udh =>
    have htext := decodeText_eq_outOfBounds_iff (octetAt bytes (pidStart bytes + 1)) udh text
      (show pidStart bytes + 9 + 1 < bytes.length from not_le.mp hshort)
    have hinside : ¬ TextInside bytes text.length ↔
        (octetAt bytes (pidStart bytes + 9)).toNat ≤ text.length ∧
          alphabetOf (octetAt bytes (pidStart bytes + 1)) = 2 ∧
          bytes.length < pidStart bytes + 9 + 1 + (octetAt bytes (pidStart bytes + 9)).toNat := by
      have hparsed : ¬ ∃ rc, parseUdh bytes bytes.length (userDataStart bytes)
          (octetAt bytes (deliverStart bytes) &&& 0x40 ≠ 0) = .error (.code rc) := by
        rw [hudh]
        simp
      rw [TextInside, or_iff_right hshort, or_iff_right hparsed, not_or, not_lt, Classical.not_imp,
        not_le]
      rfl
    rw [hinside, ← htext]
    simp only [ok_bind]
    cases decodeText bytes bytes.length (pidStart bytes + 9) (octetAt bytes (pidStart bytes + 1))
      udh text with
    | error f =>
      constructor
      · exact fun h => congrArg _ (Except.error.inj h)
      · exact fun h => congrArg _ (Except.error.inj h)
    | ok decoded => simp

/-- `pduDecode` leaves the message, or writes in front of the sender, exactly when a field it does
not check is missing. -/
theorem pduDecode_eq_outOfBounds_iff (bytes : List UInt8) (senderSize : ℕ) (text : List UInt8) :
    pduDecode bytes bytes.length senderSize text = .error .outOfBounds ↔
      ¬ StaysInside bytes senderSize text.length := by
  unfold pduDecode
  by_cases hempty : bytes.length = 0
  · simp [StaysInside, hempty]
  rw [if_neg hempty, readAt_octetAt (by omega), ok_bind]
  change (if deliverStart bytes + 1 > bytes.length then _ else _) = _ ↔ _
  by_cases hdeliver : deliverStart bytes + 1 > bytes.length
  · simp [StaysInside, hdeliver]
  rw [if_neg hdeliver]
  by_cases hlength : bytes.length < deliverStart bytes + 2
  · rw [show 1 + (octetAt bytes 0).toNat = deliverStart bytes from rfl, readAt_of_le (by omega)]
    apply iff_of_true rfl
    unfold StaysInside
    omega
  rw [show 1 + (octetAt bytes 0).toNat = deliverStart bytes from rfl,
    readAt_octetAt (by omega), ok_bind]
  change (if senderLength bytes + 1 > senderSize then _ else _) = _ ↔ _
  have hrest : StaysInside bytes senderSize text.length ↔
      senderSize < senderLength bytes + 1 ∨ pidStart bytes + 8 ≤ bytes.length ∧
        (octetAt bytes (deliverStart bytes + 2) = typeOfAddressAlphanumeric →
          0 < senderLength bytes) ∧ TextInside bytes text.length := by
    unfold StaysInside
    constructor
    · rintro (h | h | ⟨-, h⟩)
      · exact absurd h hempty
      · omega
      · exact h
    · exact fun h => .inr (.inr ⟨by omega, h⟩)
  rw [hrest]
  by_cases hsize : senderLength bytes + 1 > senderSize
  · simp [hsize]
  rw [if_neg hsize]
  by_cases hpid : pidStart bytes + 8 ≤ bytes.length
  · have hstart : deliverStart bytes + 3 + (senderLength bytes + 1) / 2 = pidStart bytes := rfl
    rw [readAt_octetAt (by omega), ok_bind]
    by_cases hnamed : octetAt bytes (deliverStart bytes + 2) = typeOfAddressAlphanumeric →
        0 < senderLength bytes
    · obtain ⟨sender, hsender⟩ := decodeSender_of_room
        (show (senderLength bytes + 1) / 2 ≤ (bytes.drop (deliverStart bytes + 3)).length by
          rw [List.length_drop]; omega) hnamed
      change (decodeSender _ _ (senderLength bytes) >>= _) = _ ↔ _
      rw [hsender]
      change decodeBody _ _ _ (pidStart bytes) _ _ = _ ↔ _
      rw [decodeBody_eq_outOfBounds_iff sender text hpid]
      have hsize' : ¬ senderSize < senderLength bytes + 1 := by omega
      tauto
    · -- the sender is a name of no letters
      refine iff_of_true ?_ (by tauto)
      obtain ⟨htype, hzero⟩ := Classical.not_imp.mp hnamed
      have hnone : senderLength bytes = 0 := by omega
      change (decodeSender _ _ (senderLength bytes) >>= _) = _
      rw [htype, hnone]
      rfl
  · -- the time is not complete, and nothing in front of it has an error code
    refine iff_of_true ?_ (by tauto)
    apply (noCode_readAt bytes _).bind_outOfBounds
    intro typeOfAddress _
    apply (decodeSender_noCode _ typeOfAddress _).bind_outOfBounds
    intro sender _
    have htime : decodeTime bytes (pidStart bytes) = .error .outOfBounds :=
      decodeTime_of_lt (by omega)
    change decodeBody _ _ _ (pidStart bytes) _ _ = _
    rw [decodeBody, htime]
    rfl

/-- **Bounds of `pdu_decode`**: for every byte string and all sizes of the output buffers, no access
is outside exactly when the fields that are read without a check are inside. -/
theorem pduDecodeInto_inside_iff (bytes sender text : List UInt8) (hroom : 0 < text.length) :
    pduDecodeInto bytes bytes.length sender text ≠ .error .outOfBounds ↔
      StaysInside bytes sender.length text.length := by
  rw [Ne, (pduDecodeInto_rel bytes bytes.length sender hroom).error_iff,
    pduDecode_eq_outOfBounds_iff, not_not]

/-- A message "A" from the number 12. -/
def completeMessage : List UInt8 :=
  [0x00, 0x04, 0x02, 0x81, 0x21, 0x00, 0x00, 0x62, 0x90, 0x11, 0x21, 0x43, 0x65, 0x00, 0x01, 0x41]

/-- The buffers `decode_pdu` passes for the sender and for the text. -/
def senderBuffer : List UInt8 := List.replicate phoneNumberSize 0
def textBuffer : List UInt8 := List.replicate smsTextSize 0

/-- The complete message stays inside. -/
theorem pduDecodeInto_inside_complete :
    0 < textBuffer.length ∧
      pduDecodeInto completeMessage completeMessage.length senderBuffer textBuffer ≠
        .error .outOfBounds := by
  have hroom : 0 < textBuffer.length := by
    rw [textBuffer, List.length_replicate]
    decide
  refine ⟨hroom, (pduDecodeInto_inside_iff completeMessage senderBuffer textBuffer hroom).mpr ?_⟩
  right; right
  refine ⟨by decide, .inr ⟨by decide, by decide, ?_⟩⟩
  right; right; right
  decide

/-- A message that ends with its first octet. -/
def truncatedMessage : List UInt8 := [0x00, 0x04]

/-- A message from an alphanumeric sender of no letters. -/
def namelessMessage : List UInt8 :=
  [0x00, 0x04, 0x00, 0xd0, 0x00, 0x00, 0x62, 0x90, 0x11, 0x21, 0x43, 0x65, 0x00, 0x02, 0x41, 0x00]

/-- A message that announces 255 octets of UCS-2 text and ends after two. -/
def cutMessage : List UInt8 :=
  [0x00, 0x04, 0x02, 0x81, 0x21, 0x00, 0x08, 0x62, 0x90, 0x11, 0x21, 0x43, 0x65, 0x00, 0xff, 0x00,
   0x41]

/-- The length of the address is read behind the end of a truncated message, the end of a nameless
sender is written in front of its buffer, also through `decode_pdu`, and a UCS-2 text is copied from
behind the end of its message. -/
theorem pdu_outOfBounds :
    pduDecodeInto truncatedMessage truncatedMessage.length senderBuffer textBuffer =
        .error .outOfBounds ∧
      pduDecodeInto namelessMessage namelessMessage.length senderBuffer textBuffer =
        .error .outOfBounds ∧
      decodePdu (hexText namelessMessage) = .error .outOfBounds ∧
      pduDecodeInto cutMessage cutMessage.length senderBuffer textBuffer =
        .error .outOfBounds := by
  exact ⟨by decide, by decide, by decide, by decide +kernel⟩

end QModem.Sms
