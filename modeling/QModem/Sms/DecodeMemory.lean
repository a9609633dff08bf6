import QModem.Sms.Pdu

/-!
# The Memory Accesses of `pdu_decode`

`pduDecode` follows the lengths of what `pdu_decode` writes, not the places it writes to.  Here the
sender and the text are buffers of fixed size and every assignment to them is an access that can
leave its buffer:

- `pduDecodeInto` is `pdu_decode` with its outputs as memory,
- `pduDecodeInto_rel` shows that `pduDecode` describes what it leaves in them.
-/

namespace QModem.Sms

open Lib List CResult

/-! ## The functions that write -/

/-- The loop of `DecodePDUMessage_GSM_7bit`, with `outputTextLength` bytes of `output` written. -/
def decodePDULoopInto (buffer : List UInt8) (smsTextLength : ℕ) :
    ℕ → ℕ → ℕ → List UInt8 → ℕ → CResult (List UInt8 × ℕ × ℕ × ℕ)
  | 0, i, carryOnBits, output, outputTextLength => .ok (output, outputTextLength, i, carryOnBits)
  | n + 1, i, carryOnBits, output, outputTextLength => do
    let hi ← readAt buffer i
    let lo ← readAt buffer (i - 1)
    let output ← writeAt output outputTextLength (UInt8.ofNat
      (((hi.toNat <<< carryOnBits) ||| (lo.toNat >>> (8 - carryOnBits))) &&& 0x7f))
    if outputTextLength + 1 = smsTextLength then
      return (output, outputTextLength + 1, i, carryOnBits)
    if carryOnBits + 1 = 8 then
      let output ← writeAt output (outputTextLength + 1 : ℕ) (UInt8.ofNat (hi.toNat &&& 0x7f))
      if outputTextLength + 1 + 1 = smsTextLength then
        return (output, outputTextLength + 1 + 1, i, 1)
      decodePDULoopInto buffer smsTextLength n (i + 1) 1 output (outputTextLength + 1 + 1)
    else
      decodePDULoopInto buffer smsTextLength n (i + 1) (carryOnBits + 1) output
        (outputTextLength + 1)

/-- The septet in front of the loop, if there is an octet. -/
def firstSeptetInto (buffer : List UInt8) (bufferLength : ℕ) (outputSmsText : List UInt8) :
    CResult (List UInt8 × ℕ) :=
  if bufferLength > 0 then do
    let b ← readAt buffer 0
    let output ← writeAt outputSmsText 0 (UInt8.ofNat (b.toNat &&& 0x7f))
    return (output, 1)
  else .ok (outputSmsText, 0)

/-- `DecodePDUMessage_GSM_7bit`: the output buffer and the number of septets written to it. -/
def decodePDUMessageGSM7bitInto (buffer : List UInt8) (bufferLength : ℕ)
    (outputSmsText : List UInt8) (smsTextLength : ℕ) : CResult (List UInt8 × ℕ) := do
  let (output, outputTextLength) ← firstSeptetInto buffer bufferLength outputSmsText
  if smsTextLength > 1 then
    let (output, outputTextLength, i, carryOnBits) ←
      decodePDULoopInto buffer smsTextLength (bufferLength - 1) 1 1 output outputTextLength
    if outputTextLength < smsTextLength then
      let lo ← readAt buffer (i - 1)
      let output ← writeAt output outputTextLength (UInt8.ofNat (lo.toNat >>> (8 - carryOnBits)))
      return (output, outputTextLength + 1)
    else return (output, outputTextLength)
  else return (output, outputTextLength)

/-- Moves the `n` bytes behind an escape pair down by one. -/
def closeGap (buffer : List UInt8) (i n : ℕ) : CResult (List UInt8) :=
  if 0 < n then memmove buffer (i + 1) buffer (i + 2) n else .ok buffer

/-- The loop of `G7bitToAscii` at `i`, with `n` bytes left. -/
def g7bitToAsciiLoop (useTurkishLocking useTurkishSingle : Bool) :
    ℕ → List UInt8 → ℕ → CResult (List UInt8 × ℕ)
  | 0, buffer, i => .ok (buffer, i)
  | n + 1, buffer, i => do
    let b ← readAt buffer i
    if b < 128 then
      if b = gsm7bitsEscape then
        match n with
        | 0 => return (buffer, i)
        | n + 1 => do
          let x ← readAt buffer (i + 1)
          let c ← extendedChar useTurkishSingle x
          let buffer ← writeAt buffer i c
          let buffer ← closeGap buffer i n
          g7bitToAsciiLoop useTurkishLocking useTurkishSingle n buffer (i + 1)
      else do
        let c ← basicChar useTurkishLocking b
        let buffer ← writeAt buffer i c
        g7bitToAsciiLoop useTurkishLocking useTurkishSingle n buffer (i + 1)
    else g7bitToAsciiLoop useTurkishLocking useTurkishSingle n buffer (i + 1)

/-- `G7bitToAscii`: the buffer and the length that is left.  A length that is not positive is
returned as it is. -/
def g7bitToAsciiInto (useTurkishLocking useTurkishSingle : Bool) (buffer : List UInt8)
    (bufferLength : ℤ) : CResult (List UInt8 × ℤ) :=
  if 0 < bufferLength then do
    let (buffer, length) ←
      g7bitToAsciiLoop useTurkishLocking useTurkishSingle bufferLength.toNat buffer 0
    return (buffer, (length : ℤ))
  else .ok (buffer, bufferLength)

def decodePhoneNumberInto (buffer : List UInt8) (phoneNumberLength : ℕ)
    (outputPhoneNumber : List UInt8) : CResult (List UInt8) := do
  let output ← (List.range phoneNumberLength).foldlM
    (fun output i => do writeAt output i (← phoneDigit buffer i)) outputPhoneNumber
  writeAt output phoneNumberLength 0

/-- The sender field of a message, written to the buffer for the sender. -/
def decodeSenderInto (buffer : List UInt8) (senderTypeOfAddress : UInt8) (senderNumberLength : ℕ)
    (output : List UInt8) : CResult (List UInt8) :=
  if senderTypeOfAddress = typeOfAddressAlphanumeric then do
    let (output, senderLen1) ←
      decodePDUMessageGSM7bitInto buffer ((senderNumberLength + 1) / 2) output senderNumberLength
    let (output, senderLen2) ← g7bitToAsciiInto false false output ((senderLen1 : ℤ) - 1)
    writeAt output senderLen2 0
  else decodePhoneNumberInto buffer senderNumberLength output

/-- The text of a message, written to the text buffer; the second component is the value that
`pdu_decode` returns. -/
def decodeTextInto (buffer : List UInt8) (bufferLength smsStart : ℕ) (tpDcs : UInt8) (udh : UdhInfo)
    (outputSmsText : List UInt8) : CResult (List UInt8 × ℕ) := do
  let udl := (← readAt buffer smsStart).toNat
  if outputSmsText.length < udl then .error (.code (-1))
  else match alphabetOf tpDcs with
    | 0 => do
      let (output, decodedSmsTextSize) ← decodePDUMessageGSM7bitInto (buffer.drop (smsStart + 1))
        (bufferLength - (smsStart + 1)) outputSmsText udl
      if decodedSmsTextSize ≠ udl then .error (.code (-1))
      else
        let skip := skipSeptets (if udh.present then udh.bytes else 0)
        if skip > udl then .error (.code (-1))
        else do
          let (tail, length) ← g7bitToAsciiInto udh.turkishLocking udh.turkishSingle
            (output.drop skip) ((udl - skip : ℕ) : ℤ)
          return (output.take skip ++ tail, skip + length.toNat)
    | 2 => do
      let output ← memmove outputSmsText 0 buffer (smsStart + 1) udl
      return (output, udl)
    | _ => .ok (outputSmsText, udl)

/-- Puts the end of the string into the text buffer. -/
def terminateInto (output : List UInt8) (outputSmsTextLength : ℕ) : CResult (List UInt8) :=
  if outputSmsTextLength < output.length then writeAt output outputSmsTextLength 0
  else writeAt output ((output.length : ℤ) - 1) 0

/-- The return value of `pdu_decode` and the memory it leaves. -/
structure DecodedMemory where
  length : ℕ
  time : SmsTime
  /-- The whole buffer for the sender. -/
  sender : List UInt8
  /-- The whole text buffer. -/
  text : List UInt8
  tpDcs : UInt8
  refNumber : ℕ
  totalParts : ℕ
  partNumber : ℕ
  skipBytes : ℕ
  deriving DecidableEq, Repr

/-- Everything `pdu_decode` does once the header of the message has been read. -/
def decodeBodyInto (buffer : List UInt8) (bufferLength smsDeliverStart smsPidStart : ℕ)
    (sender outputSmsText : List UInt8) : CResult DecodedMemory := do
  let time ← decodeTime buffer smsPidStart
  let smsStart := smsPidStart + 2 + 7
  if smsStart + 1 ≥ bufferLength then .error (.code (-1))
  else do
    let firstOctet ← readAt buffer smsDeliverStart
    let udh ← parseUdh buffer bufferLength (smsStart + 1) (firstOctet &&& 0x40 ≠ 0)
    let tpDcs ← readAt buffer (smsPidStart + 1)
    let (output, outputSmsTextLength) ←
      decodeTextInto buffer bufferLength smsStart tpDcs udh outputSmsText
    let output ← terminateInto output outputSmsTextLength
    return {
      length := outputSmsTextLength
      time := time
      sender := sender
      text := output
      tpDcs := tpDcs
      refNumber := udh.concatRef
      totalParts := udh.concatTotal
      partNumber := udh.concatPart
      skipBytes := if udh.present then udh.bytes else 0 }

/-- `pdu_decode` on the first `bufferLength` octets of `buffer` and the two output buffers. -/
def pduDecodeInto (buffer : List UInt8) (bufferLength : ℕ)
    (outputSenderPhoneNumber outputSmsText : List UInt8) : CResult DecodedMemory :=
  if bufferLength = 0 then .error (.code (-1))
  else do
    let smsDeliverStart := 1 + (← readAt buffer 0).toNat
    if smsDeliverStart + 1 > bufferLength then .error (.code (-2))
    else do
      let senderNumberLength := (← readAt buffer (smsDeliverStart + 1)).toNat
      if senderNumberLength + 1 > outputSenderPhoneNumber.length then .error (.code (-3))
      else do
        let senderTypeOfAddress ← readAt buffer (smsDeliverStart + 2)
        let sender ← decodeSenderInto (buffer.drop (smsDeliverStart + 3)) senderTypeOfAddress
          senderNumberLength outputSenderPhoneNumber
        let smsPidStart := smsDeliverStart + 3 + (senderNumberLength + 1) / 2
        decodeBodyInto buffer bufferLength smsDeliverStart smsPidStart sender outputSmsText

/-! ## What the memory holds

Every function that writes is compared with the one of `QModem.Sms.Gsm7` or `QModem.Sms.Pdu` that
returns what is written.
-/

/-- The text written so far stands at the start of the output buffer. -/
theorem decodePDULoopInto_rel (buffer original : List UInt8) {m : ℕ} (hm : m ≤ original.length) :
    ∀ (n i c : ℕ) (out : List UInt8), out.length < m →
      CResult.Rel
        (fun r r' => r = (overlay r'.1 original, r'.1.length, r'.2) ∧ r'.1.length ≤ m)
        (decodePDULoopInto buffer m n i c (overlay out original) out.length)
        (decodePDULoop buffer m n i c out) := by
  intro n
  induction n with
  | zero => exact fun i c out hout => .ok ⟨rfl, hout.le⟩
  | succ n ih =>
    intro i c out hout
    apply Rel.bind_same
    intro hi
    apply Rel.bind_same
    intro lo
    rw [writeAt_overlay (by omega)]
    simp only [ok_bind, pure_eq]
    generalize hout1 : out ++ [UInt8.ofNat _] = out1
    have hlen1 : out1.length = out.length + 1 := by simp [← hout1]
    rw [← hlen1]
    by_cases hfull : out1.length = m
    · rw [if_pos hfull, if_pos hfull]
      exact .ok ⟨rfl, hfull.le⟩
    · rw [if_neg hfull, if_neg hfull]
      split
      · -- the octet also holds a whole septet
        rw [writeAt_overlay (by omega)]
        simp only [ok_bind]
        generalize hout2 : out1 ++ [UInt8.ofNat _] = out2
        have hlen2 : out2.length = out1.length + 1 := by simp [← hout2]
        rw [← hlen2]
        by_cases hfull' : out2.length = m
        · rw [if_pos hfull', if_pos hfull']
          exact .ok ⟨rfl, hfull'.le⟩
        · rw [if_neg hfull', if_neg hfull']
          exact ih (i + 1) 1 out2 (by omega)
      · exact ih (i + 1) (c + 1) out1 (by omega)

variable {original : List UInt8}

variable (locking single : Bool) (septets done rest tail buffer : List UInt8) (bufferLength : ℕ)

/-- The septet in front of the loop is the only one written so far. -/
theorem firstSeptetInto_rel {α β : Type} {S : α → β → Prop} {f : List UInt8 × ℕ → CResult α}
    {g : List UInt8 → CResult β} (hfirst : 0 < bufferLength → 0 < original.length)
    (hfg : ∀ out : List UInt8, out.length ≤ 1 → out.length ≤ original.length →
      CResult.Rel S (f (overlay out original, out.length)) (g out)) :
    CResult.Rel S (firstSeptetInto buffer bufferLength original >>= f)
      (if bufferLength > 0 then do
        g (← (readAt buffer 0).map fun b => [UInt8.ofNat (b.toNat &&& 0x7f)])
      else do g (← .ok [])) := by
  unfold firstSeptetInto
  split
  next hpos =>
    cases readAt buffer 0 with
    | error f => exact .error f
    | ok b =>
      -- the first write is to the first octet
      have hwrite := @writeAt_overlay [] original (hfirst hpos) (UInt8.ofNat (b.toNat &&& 0x7f))
      simp only [overlay, length_nil, drop_zero, nil_append] at hwrite
      simp only [ok_bind, Nat.cast_zero] at hwrite ⊢
      rw [hwrite]
      exact hfg [_] le_rfl (hfirst hpos)
  · exact hfg [] (by simp) (by simp)

/-- Unpacking writes the septets to the start of the output buffer, at most as many as were asked
for when any were. -/
theorem decodePDUMessageGSM7bitInto_rel {m : ℕ} (hm : m ≤ original.length)
    (hfirst : 0 < bufferLength → 0 < original.length) :
    CResult.Rel
      (fun r out => r = (overlay out original, out.length) ∧ out.length ≤ original.length)
      (decodePDUMessageGSM7bitInto buffer bufferLength original m)
      (decodePDUMessageGSM7bit buffer bufferLength m) := by
  -- the octets that are written are always an initial part of the array
  apply firstSeptetInto_rel buffer bufferLength hfirst
  intro out hout hroom
  dsimp only
  split
  · apply (decodePDULoopInto_rel buffer original hm _ 1 1 out (by omega)).bind
    rintro - ⟨out', i, c⟩ ⟨rfl, hout'⟩
    dsimp only at hout' ⊢
    split
    · apply Rel.bind_same
      intro lo
      rw [writeAt_overlay (by omega)]
      exact .ok ⟨by simp, by simp; omega⟩
    · exact .ok ⟨rfl, by omega⟩
  · exact .ok ⟨rfl, hroom⟩

/-- Closing the gap keeps the bytes behind it and what follows them. -/
theorem closeGap_eq (c x : UInt8) :
    ∃ y, closeGap (done ++ c :: x :: rest ++ tail) done.length rest.length =
      .ok (done ++ [c] ++ rest ++ y :: tail) := by
  obtain ⟨y, hy⟩ : ∃ y, (x :: rest).drop rest.length = [y] :=
    length_eq_one_iff.mp (by simp)
  refine ⟨y, ?_⟩
  by_cases hrest : 0 < rest.length
  · have hsplit : done ++ c :: x :: rest ++ tail = done ++ [c] ++ (x :: rest) ++ tail := by simp
    have hfrom : (done ++ [c] ++ (x :: rest) ++ tail).drop (done.length + 2) = rest ++ tail := by
      simp
    have hbehind : (done ++ [c] ++ (x :: rest) ++ tail).drop (done.length + 1 + rest.length) =
        y :: tail := by
      have hlast : (x :: rest ++ tail).drop rest.length = y :: tail := by
        rw [drop_append_of_le_length (by simp), hy, singleton_append]
      rw [append_assoc, drop_append, length_append, length_singleton,
        Nat.add_sub_cancel_left, hlast]
      simp
    have hfront : (done ++ [c] ++ (x :: rest) ++ tail).take (done.length + 1) = done ++ [c] := by
      rw [append_assoc, take_left' (by simp)]
    rw [closeGap, if_pos hrest, memmove, if_pos (by constructor <;> simp <;> omega), hsplit, hfrom,
      hbehind, hfront, take_left]
  · -- nothing stands behind the pair, and its second septet is left where it was
    obtain rfl : rest = [] := length_eq_zero_iff.mp (by omega)
    obtain rfl : x = y := by simpa using hy
    simp [closeGap]

theorem readAt_middle (b : UInt8) : readAt (done ++ b :: rest ++ tail) done.length = .ok b := by
  rw [append_assoc]
  exact readAt_append_right (i := 0) rfl

theorem writeAt_middle (b c : UInt8) :
    writeAt (done ++ b :: rest ++ tail) done.length c = .ok (done ++ [c] ++ rest ++ tail) := by
  have hwrite := writeAt_append done b c (rest ++ tail)
  simpa using hwrite

/-- The translation leaves the bytes in front of it and writes its characters behind them. -/
theorem g7bitToAsciiLoop_rel :
    ∀ done tail : List UInt8,
      CResult.Rel
        (fun r text => ∃ junk, r = (done ++ text ++ junk, done.length + text.length) ∧
          text.length + junk.length = rest.length + tail.length ∧ text.length ≤ rest.length)
        (g7bitToAsciiLoop locking single rest.length (done ++ rest ++ tail) done.length)
        (g7bitToAscii locking single rest) := by
  have hesc : gsm7bitsEscape < 128 := by decide
  induction rest using gsm7Items.induct with
  | case1 => exact fun done tail => .ok ⟨tail, by simp, by simp, by simp⟩
  | case2 =>
    -- an escape at the end stays in the buffer, behind the text
    intro done tail
    simp only [length_singleton, g7bitToAsciiLoop, g7bitToAscii, readAt_middle,
      ok_bind, hesc, if_true]
    exact .ok ⟨gsm7bitsEscape :: tail, by simp, by simp; omega, by simp⟩
  | case3 x rest ih =>
    intro done tail
    have hx : readAt (done ++ gsm7bitsEscape :: x :: rest ++ tail) (done.length + 1) = .ok x := by
      simpa using readAt_middle (done ++ [gsm7bitsEscape]) rest tail x
    simp only [length_cons, g7bitToAsciiLoop, g7bitToAscii, readAt_middle, hx, ok_bind,
      hesc, if_true]
    apply Rel.bind_same
    intro c
    obtain ⟨y, hy⟩ := closeGap_eq done rest tail c x
    have hwrite := writeAt_append done gsm7bitsEscape c (x :: rest ++ tail)
    simp only [append_assoc, cons_append] at hwrite hy ⊢
    rw [hwrite]
    simp only [ok_bind, hy]
    have hstep := ih (done ++ [c]) (y :: tail)
    simp only [length_append, length_singleton, append_assoc] at hstep
    apply hstep.bind_right
    rintro - text ⟨junk, rfl, hlen, hshort⟩
    exact ⟨junk, by simp; omega, by simp at hlen ⊢; omega, by simp; omega⟩
  | case4 b rest hb ih =>
    intro done tail
    rw [length_cons, g7bitToAsciiLoop.eq_def, g7bitToAscii.eq_def]
    simp only [readAt_middle, ok_bind, hb, if_false]
    split
    · apply Rel.bind_same
      intro c
      rw [writeAt_middle]
      have hstep := ih (done ++ [c]) tail
      simp only [length_append, length_singleton] at hstep
      apply hstep.bind_right
      rintro - text ⟨junk, rfl, hlen, hshort⟩
      exact ⟨junk, by simp; omega, by simp at hlen ⊢; omega, by simp; omega⟩
    · have hstep := ih (done ++ [b]) tail
      simp only [length_append, length_singleton] at hstep
      rw [show done ++ b :: rest ++ tail = done ++ [b] ++ rest ++ tail by simp]
      apply hstep.bind_right
      rintro - text ⟨junk, rfl, hlen, hshort⟩
      exact ⟨junk, by simp; omega, by simp at hlen ⊢; omega, by simp; omega⟩

/-- The translation of the first bytes of a buffer stands at its start. -/
theorem g7bitToAsciiInto_rel :
    CResult.Rel
      (fun r text => ∃ junk, r = (text ++ junk, (text.length : ℤ)) ∧
        text.length + junk.length = septets.length + tail.length ∧ text.length ≤ septets.length)
      (g7bitToAsciiInto locking single (septets ++ tail) (septets.length : ℤ))
      (g7bitToAscii locking single septets) := by
  unfold g7bitToAsciiInto
  split
  · have hloop := g7bitToAsciiLoop_rel locking single septets [] tail
    simp only [nil_append, length_nil, Nat.zero_add] at hloop
    -- the array is overwritten while it is read; the writes stay behind the reads
    rw [Int.toNat_natCast, ← bind_pure (g7bitToAscii locking single septets)]
    apply hloop.bind
    rintro - text ⟨junk, rfl, hlen⟩
    exact .ok ⟨junk, rfl, hlen⟩
  · obtain rfl : septets = [] := length_eq_zero_iff.mp (by omega)
    exact .ok ⟨tail, by simp, by simp, by simp⟩

/-- The loop writes one digit after the other. -/
theorem phoneDigits_rel (original : List UInt8) :
    ∀ (n : ℕ) (out : List UInt8), out.length + n ≤ original.length →
      CResult.Rel (fun r digits => r = overlay (out ++ digits) original ∧ digits.length = n)
        ((List.range' out.length n).foldlM
          (fun output (i : ℕ) => do writeAt output i (← phoneDigit buffer i))
          (overlay out original))
        ((List.range' out.length n).mapM (phoneDigit buffer)) := by
  intro n
  induction n with
  | zero => exact fun out _ => .ok ⟨by simp, rfl⟩
  | succ n ih =>
    intro out hroom
    simp only [range'_succ, foldlM_cons, mapM_cons, bind_assoc]
    apply Rel.bind_same
    intro digit
    rw [writeAt_overlay (by omega)]
    -- the digit stands at the end of what is written already
    have hstep := ih (out ++ [digit]) (by simp; omega)
    rw [length_append, length_singleton] at hstep
    apply hstep.bind_right
    rintro - digits ⟨rfl, hlen⟩
    exact ⟨by simp, by simp [hlen]⟩

/-- The digits of a number and the end of the string behind them. -/
theorem decodePhoneNumberInto_rel {n : ℕ} (hroom : n < original.length) :
    CResult.Rel (fun r digits => (digits ++ [0]) <+: r)
      (decodePhoneNumberInto buffer n original) (decodePhoneNumber buffer n) := by
  have hdigits := phoneDigits_rel buffer original n [] (by simpa using hroom.le)
  simp only [length_nil, ← range_eq_range', overlay, nil_append, drop_zero] at hdigits
  unfold decodePhoneNumberInto decodePhoneNumber
  rw [← bind_pure ((range n).mapM (phoneDigit buffer))]
  apply hdigits.bind
  rintro - digits ⟨rfl, rfl⟩
  have hwrite := writeAt_overlay hroom 0
  rw [overlay] at hwrite
  rw [hwrite]
  exact .ok (prefix_append _ _)

/-- With room for its end the sender is a C string. -/
theorem decodeSenderInto_rel (typeOfAddress : UInt8) {n : ℕ} (hroom : n < original.length) :
    CResult.Rel (fun r name => (name ++ [0]) <+: r)
      (decodeSenderInto buffer typeOfAddress n original) (decodeSender buffer typeOfAddress n) := by
  unfold decodeSenderInto decodeSender
  split
  · apply (decodePDUMessageGSM7bitInto_rel buffer ((n + 1) / 2) hroom.le (by omega)).bind
    rintro - name ⟨rfl, hname⟩
    by_cases hempty : name = []
    · -- the end of the string is put in front of the buffer
      subst hempty
      exact .error .outOfBounds
    · rw [if_neg hempty]
      have hsplit := dropLast_append_getLast hempty
      have hlen : name.dropLast.length + 1 = name.length := by
        have := congrArg length hsplit
        simpa using this
      have hbuffer : overlay name original =
          name.dropLast ++ (name.getLast hempty :: original.drop name.length) := by
        rw [overlay]
        conv_lhs => arg 1; rw [← hsplit]
        simp
      have htranslate := g7bitToAsciiInto_rel false false name.dropLast
        (name.getLast hempty :: original.drop name.length)
      rw [← hbuffer, show (name.dropLast.length : ℤ) = (name.length : ℤ) - 1 by omega] at htranslate
      rw [← bind_pure (g7bitToAscii false false name.dropLast)]
      apply htranslate.bind
      rintro - text ⟨junk, rfl, htotal, hshort⟩
      cases junk with
      | nil => simp at htotal; omega
      | cons y junk =>
        dsimp only
        rw [writeAt_append]
        exact .ok ⟨junk, by simp⟩
  · exact decodePhoneNumberInto_rel buffer hroom

/-- The text is written to the front of the array, whatever was there before. -/
theorem decodeTextInto_rel (smsStart : ℕ) (tpDcs : UInt8) (udh : UdhInfo)
    (hroom : 0 < original.length) :
    CResult.Rel
      (fun r text => ∃ junk, r = (text ++ junk, text.length) ∧
        text.length + junk.length = original.length)
      (decodeTextInto buffer bufferLength smsStart tpDcs udh original)
      (decodeText buffer bufferLength smsStart tpDcs udh original) := by
  unfold decodeTextInto decodeText
  rcases hstart : readAt buffer smsStart with f | b
  · exact .error f
  have hinside : smsStart < buffer.length := by
    by_contra hout
    simp [readAt_of_le (not_lt.mp hout)] at hstart
  simp only [ok_bind]
  generalize b.toNat = udl
  split
  · exact .error _
  rename_i hudl
  have hother : Rel
      (fun r text => ∃ junk, r = (text ++ junk, text.length) ∧
        text.length + junk.length = original.length)
      (.ok (original, udl)) (.ok (original.take udl)) :=
    .ok ⟨original.drop udl, by simp; omega, by simp; omega⟩
  -- 0 is the GSM alphabet and 2 is UCS-2
  generalize alphabetOf tpDcs = alphabet
  rcases alphabet with _ | _ | _ | alphabet
  · apply (decodePDUMessageGSM7bitInto_rel _ _ (not_lt.mp hudl) fun _ => hroom).bind
    rintro - decoded ⟨rfl, hdecoded⟩
    split
    · exact .error _
    rename_i hsize
    obtain rfl : decoded.length = udl := not_not.mp hsize
    generalize skipSeptets (if udh.present = true then udh.bytes else 0) = skip
    split
    · exact .error _
    rename_i hskip
    have hskip' : skip ≤ decoded.length := not_lt.mp hskip
    have htake : (overlay decoded original).take skip = decoded.take skip :=
      take_append_of_le_length hskip'
    have hdrop : (overlay decoded original).drop skip =
        decoded.drop skip ++ original.drop decoded.length :=
      drop_append_of_le_length hskip'
    rw [htake, hdrop, ← length_drop]
    apply (g7bitToAsciiInto_rel _ _ _ _).bind
    rintro - text ⟨junk, rfl, htotal, -⟩
    refine .ok ⟨junk, ?_, ?_⟩
    · simp [hskip']
    · simp only [length_drop, length_append, length_take] at htotal ⊢
      omega
  · exact hother
  · change Rel _ (memmove original 0 buffer (smsStart + 1) udl >>= fun output =>
      pure (output, udl)) (if ((buffer.drop (smsStart + 1)).take udl).length ≠ udl then
      .error .outOfBounds else .ok ((buffer.drop (smsStart + 1)).take udl))
    have hlen : ((buffer.drop (smsStart + 1)).take udl).length =
        min udl (buffer.length - (smsStart + 1)) := by simp
    by_cases hfits : smsStart + 1 + udl ≤ buffer.length
    · rw [memmove, if_pos ⟨hfits, by omega⟩]
      rw [if_neg (by omega)]
      refine .ok ⟨original.drop udl, ?_, ?_⟩
      · simp; omega
      · simp; omega
    · rw [memmove, if_neg (by omega)]
      rw [if_pos (by omega)]
      exact .error _
  · exact hother

/-- The string ends inside the text buffer. -/
theorem terminateInto_eq (text junk : List UInt8) (hroom : 0 < (text ++ junk).length) :
    ∃ r, terminateInto (text ++ junk) text.length = .ok r ∧
      terminate text (text ++ junk).length <+: r := by
  cases junk with
  | nil =>
    -- the text fills the buffer, and its last byte is given up
    obtain ⟨front, last, rfl⟩ : ∃ front last, text = front ++ [last] := by
      rcases eq_nil_or_concat text with rfl | ⟨front, last, hsplit⟩
      · simp at hroom
      · exact ⟨front, last, by simpa using hsplit⟩
    have hwrite := writeAt_append front last 0 []
    refine ⟨front ++ [0], ?_, ?_⟩
    · rw [terminateInto, if_neg (by simp), ← hwrite]
      simp
    · simp [terminate]
  | cons y junk =>
    refine ⟨text ++ 0 :: junk, ?_, ?_⟩
    · rw [terminateInto, if_pos (by simp), writeAt_append]
    · rw [terminate, if_pos (by simp)]
      exact ⟨junk, by simp⟩

/-- The memory holds what `pduDecode` describes. -/
structure Holds (m : DecodedMemory) (d : PduDecoded) : Prop where
  sender : (d.sender ++ [0]) <+: m.sender
  text : d.text <+: m.text
  rest : (m.length, m.time, m.tpDcs, m.refNumber, m.totalParts, m.partNumber, m.skipBytes) =
    (d.length, d.time, d.tpDcs, d.refNumber, d.totalParts, d.partNumber, d.skipBytes)

/-- Both decoders take the same steps up to the text, which the array then holds. -/
theorem decodeBodyInto_rel (smsDeliverStart smsPidStart : ℕ) {sender name : List UInt8}
    (hsender : (name ++ [0]) <+: sender) (hroom : 0 < original.length) :
    CResult.Rel Holds
      (decodeBodyInto buffer bufferLength smsDeliverStart smsPidStart sender original)
      (decodeBody buffer bufferLength smsDeliverStart smsPidStart name original) := by
  unfold decodeBodyInto decodeBody
  apply Rel.bind_same
  intro time
  dsimp only
  split
  · exact .error _
  apply Rel.bind_same
  intro firstOctet
  apply Rel.bind_same
  intro udh
  apply Rel.bind_same
  intro tpDcs
  -- up to here nothing is written
  apply (decodeTextInto_rel buffer bufferLength _ tpDcs udh hroom).bind
  rintro - text ⟨junk, rfl, hlen⟩
  have hlen' : (text ++ junk).length = original.length := by simpa using hlen
  obtain ⟨r, hr, htext⟩ := terminateInto_eq text junk (by omega)
  rw [hr]
  exact .ok ⟨hsender, hlen' ▸ htext, rfl⟩

/-- **Outputs of `pdu_decode`**: with buffers of the given sizes, it fails exactly as `pduDecode`
does and otherwise leaves in them what `pduDecode` returns. -/
theorem pduDecodeInto_rel (sender : List UInt8) {text : List UInt8} (hroom : 0 < text.length) :
    CResult.Rel Holds (pduDecodeInto buffer bufferLength sender text)
      (pduDecode buffer bufferLength sender.length text) := by
  unfold pduDecodeInto pduDecode
  split
  · exact .error _
  apply Rel.bind_same
  intro smscLength
  dsimp only
  split
  · exact .error _
  apply Rel.bind_same
  intro senderNumberLength
  split
  · exact .error _
  apply Rel.bind_same
  intro senderTypeOfAddress
  -- the sizes were checked, so there is room for the sender
  apply (decodeSenderInto_rel _ senderTypeOfAddress (by omega)).bind
  intro senderBuffer name hsender
  exact decodeBodyInto_rel buffer bufferLength _ _ hsender hroom

end QModem.Sms
