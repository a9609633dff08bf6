import QModem.Sms.Gsm7

/-!
# Receiving a PDU

`pdu_decode` of `libqmodem-sms/src/pdu.c`, `ucs2_to_utf8` of `ucs2_to_utf8.c`, and `decode_pdu` of
`tom_modem/src/utils.c`, which takes the hexadecimal text the modem prints for a message.

Buffers are modelled up to the terminating zero byte `pdu_decode` writes: what an earlier and longer
content leaves behind that byte is never read again.
-/

namespace QModem.Sms

open Lib

/-! ## User data header -/

/-- What `parse_udh` reports about a user data header. -/
structure UdhInfo where
  present : Bool := false
  bytes : ℕ := 0
  turkishLocking : Bool := false
  turkishSingle : Bool := false
  concatRef : ℕ := 0
  concatTotal : ℕ := 0
  concatPart : ℕ := 0
  deriving DecidableEq, Repr

/-- Whether an element of type `iei` selects Turkish in its first data octet. -/
def selectsTurkish (buffer : List UInt8) (pos : ℕ) (wanted iei iedl : UInt8) : CResult Bool :=
  if iei = wanted ∧ 1 ≤ iedl.toNat then (readAt buffer (pos + 2)).map (· = 0x01) else .ok false

/-- The body of the loop in `parse_udh` for the element at `pos`. -/
def udhElement (buffer : List UInt8) (pos : ℕ) (iei iedl : UInt8) (info : UdhInfo) :
    CResult UdhInfo := do
  let locking ← selectsTurkish buffer pos 0x24 iei iedl
  let single ← selectsTurkish buffer pos 0x25 iei iedl
  let info := { info with
    turkishLocking := info.turkishLocking || locking
    turkishSingle := info.turkishSingle || single }
  if iei = 0x00 ∧ iedl = 3 then do
    let ref ← readAt buffer (pos + 2)
    let total ← readAt buffer (pos + 3)
    let part ← readAt buffer (pos + 4)
    return { info with concatRef := ref.toNat, concatTotal := total.toNat, concatPart := part.toNat }
  else if iei = 0x08 ∧ iedl = 4 then do
    let high ← readAt buffer (pos + 2)
    let low ← readAt buffer (pos + 3)
    let total ← readAt buffer (pos + 4)
    let part ← readAt buffer (pos + 5)
    return { info with
      concatRef := (high.toNat <<< 8) ||| low.toNat
      concatTotal := total.toNat
      concatPart := part.toNat }
  else return info

/-- The loop of `parse_udh`.  Every element takes at least two octets, so as many rounds as the
header has octets are enough. -/
def parseUdhLoop (buffer : List UInt8) (endPos : ℕ) : ℕ → ℕ → UdhInfo → CResult UdhInfo
  | 0, _, info => .ok info
  | rounds + 1, pos, info =>
    if pos < endPos then
      if pos + 2 > endPos then .error (.code (-1))
      else do
        let iei ← readAt buffer pos
        let iedl ← readAt buffer (pos + 1)
        if pos + 2 + iedl.toNat > endPos then .error (.code (-1))
        else do
          let info ← udhElement buffer pos iei iedl info
          parseUdhLoop buffer endPos rounds (pos + 2 + iedl.toNat) info
    else .ok info

/-- A message of one part carries no concatenation data. -/
def dropSinglePart (info : UdhInfo) : UdhInfo :=
  if info.concatTotal ≤ 1 then { info with concatRef := 0, concatTotal := 0, concatPart := 0 }
  else info

/-- Parses every element of the header that starts at `userDataStart`. -/
def parseUdh (buffer : List UInt8) (bufferLength userDataStart : ℕ) (hasUdh : Bool) :
    CResult UdhInfo :=
  if !hasUdh then .ok {}
  else if userDataStart ≥ bufferLength then .error (.code (-1))
  else do
    let udhl ← readAt buffer userDataStart
    let first := userDataStart + 1
    let endPos := first + udhl.toNat
    if endPos > bufferLength then .error (.code (-1))
    else do
      let info ← parseUdhLoop buffer endPos udhl.toNat first
        { present := true, bytes := udhl.toNat + 1 }
      return dropSinglePart info

/-! ## Sender and time -/

/-- The type of address that marks an alphanumeric sender. -/
def typeOfAddressAlphanumeric : UInt8 := 0xd0

def phoneDigit (buffer : List UInt8) (i : ℕ) : CResult UInt8 := do
  let b ← readAt buffer (i / 2)
  if i % 2 = 0 then return UInt8.ofNat ((b.toNat &&& 0x0f) + 0x30)
  else return UInt8.ofNat (((b.toNat &&& 0xf0) >>> 4) + 0x30)

def decodePhoneNumber (buffer : List UInt8) (phoneNumberLength : ℕ) : CResult (List UInt8) :=
  (List.range phoneNumberLength).mapM (phoneDigit buffer)

/-- The sender field of a message.  An alphanumeric sender of length zero would put the terminating
zero byte in front of the buffer. -/
def decodeSender (buffer : List UInt8) (senderTypeOfAddress : UInt8) (senderNumberLength : ℕ) :
    CResult (List UInt8) :=
  if senderTypeOfAddress = typeOfAddressAlphanumeric then do
    let name ← decodePDUMessageGSM7bit buffer ((senderNumberLength + 1) / 2) senderNumberLength
    if name = [] then .error .outOfBounds
    else g7bitToAscii false false name.dropLast
  else decodePhoneNumber buffer senderNumberLength

def swapDecimalNibble (x : UInt8) : ℕ :=
  x.toNat / 16 + x.toNat % 16 * 10

/-- The broken-down service centre time that is passed to `timegm`. -/
structure SmsTime where
  year : ℕ
  mon : ℤ
  mday : ℕ
  hour : ℕ
  min : ℕ
  sec : ℕ
  deriving DecidableEq, Repr

def decodeTime (buffer : List UInt8) (smsPidStart : ℕ) : CResult SmsTime := do
  let year ← readAt buffer (smsPidStart + 2)
  let mon ← readAt buffer (smsPidStart + 3)
  let mday ← readAt buffer (smsPidStart + 4)
  let hour ← readAt buffer (smsPidStart + 5)
  let min ← readAt buffer (smsPidStart + 6)
  let sec ← readAt buffer (smsPidStart + 7)
  return {
    year := 100 + swapDecimalNibble year
    mon := (swapDecimalNibble mon : ℤ) - 1
    mday := swapDecimalNibble mday
    hour := swapDecimalNibble hour
    min := swapDecimalNibble min
    sec := swapDecimalNibble sec }

/-! ## Text -/

/-- Number of septets the header and its fill bits take. -/
def skipSeptets (skipBytes : ℕ) : ℕ :=
  if skipBytes > 0 then (skipBytes * 8 + 6) / 7 else 0

def alphabetOf (tpDcs : UInt8) : ℕ :=
  tpDcs.toNat / 4 % 4

/-- The text `pdu_decode` leaves in its output buffer, without the terminating zero byte; its length
is the value the function returns. -/
def decodeText (buffer : List UInt8) (bufferLength smsStart : ℕ) (tpDcs : UInt8) (udh : UdhInfo)
    (outputSmsText : List UInt8) : CResult (List UInt8) := do
  let udl := (← readAt buffer smsStart).toNat
  if outputSmsText.length < udl then .error (.code (-1))
  else match alphabetOf tpDcs with
    | 0 => do
      let decoded ← decodePDUMessageGSM7bit (buffer.drop (smsStart + 1))
        (bufferLength - (smsStart + 1)) udl
      if decoded.length ≠ udl then .error (.code (-1))
      else
        let skip := skipSeptets (if udh.present then udh.bytes else 0)
        if skip > udl then .error (.code (-1))
        else do
          let text ← g7bitToAscii udh.turkishLocking udh.turkishSingle (decoded.drop skip)
          return decoded.take skip ++ text
    | 2 =>
      let octets := (buffer.drop (smsStart + 1)).take udl
      if octets.length ≠ udl then .error .outOfBounds
      else .ok octets
    | _ => .ok (outputSmsText.take udl)

/-- Terminates the text inside a buffer of `smsTextSize` bytes. -/
def terminate (text : List UInt8) (smsTextSize : ℕ) : List UInt8 :=
  if text.length < smsTextSize then text ++ [0] else text.take (smsTextSize - 1) ++ [0]

/-- The outputs of `pdu_decode`. -/
structure PduDecoded where
  /-- The return value. -/
  length : ℕ
  time : SmsTime
  sender : List UInt8
  /-- The text buffer up to and including its terminating zero byte. -/
  text : List UInt8
  tpDcs : UInt8
  refNumber : ℕ
  totalParts : ℕ
  partNumber : ℕ
  skipBytes : ℕ
  deriving DecidableEq, Repr

/-- Everything `pdu_decode` does once the header of the message has been read. -/
def decodeBody (buffer : List UInt8) (bufferLength smsDeliverStart smsPidStart : ℕ)
    (sender outputSmsText : List UInt8) : CResult PduDecoded := do
  let time ← decodeTime buffer smsPidStart
  let smsStart := smsPidStart + 2 + 7
  if smsStart + 1 ≥ bufferLength then .error (.code (-1))
  else do
    let firstOctet ← readAt buffer smsDeliverStart
    let udh ← parseUdh buffer bufferLength (smsStart + 1) (firstOctet &&& 0x40 ≠ 0)
    let tpDcs ← readAt buffer (smsPidStart + 1)
    let text ← decodeText buffer bufferLength smsStart tpDcs udh outputSmsText
    return {
      length := text.length
      time := time
      sender := sender
      text := terminate text outputSmsText.length
      tpDcs := tpDcs
      refNumber := udh.concatRef
      totalParts := udh.concatTotal
      partNumber := udh.concatPart
      skipBytes := if udh.present then udh.bytes else 0 }

/-- Decodes the first `bufferLength` octets of `buffer`. -/
def pduDecode (buffer : List UInt8) (bufferLength senderPhoneNumberSize : ℕ)
    (outputSmsText : List UInt8) : CResult PduDecoded :=
  if bufferLength = 0 then .error (.code (-1))
  else do
    let smsDeliverStart := 1 + (← readAt buffer 0).toNat
    if smsDeliverStart + 1 > bufferLength then .error (.code (-2))
    else do
      let senderNumberLength := (← readAt buffer (smsDeliverStart + 1)).toNat
      if senderNumberLength + 1 > senderPhoneNumberSize then .error (.code (-3))
      else do
        let senderTypeOfAddress ← readAt buffer (smsDeliverStart + 2)
        let sender ← decodeSender (buffer.drop (smsDeliverStart + 3)) senderTypeOfAddress
          senderNumberLength
        let smsPidStart := smsDeliverStart + 3 + (senderNumberLength + 1) / 2
        decodeBody buffer bufferLength smsDeliverStart smsPidStart sender outputSmsText

/-! ## UCS-2 -/

/-- The UTF-8 bytes of one UCS-2 value, or the error code of `ucs2_to_utf8`. -/
def ucs2ToUtf8 (ucs2 : ℕ) : Except ℤ (List UInt8) :=
  if ucs2 < 0x80 then .ok [UInt8.ofNat ucs2]
  else if ucs2 < 0x800 then
    .ok [UInt8.ofNat ((ucs2 >>> 6) ||| 0xc0), UInt8.ofNat ((ucs2 &&& 0x3f) ||| 0x80)]
  else if ucs2 < 0xffff then
    if 0xd800 ≤ ucs2 ∧ ucs2 ≤ 0xdfff then .error (-2)
    else .ok [UInt8.ofNat ((ucs2 >>> 12) ||| 0xe0), UInt8.ofNat (((ucs2 >>> 6) &&& 0x3f) ||| 0x80),
      UInt8.ofNat ((ucs2 &&& 0x3f) ||| 0x80)]
  else if 0x10000 ≤ ucs2 ∧ ucs2 < 0x10ffff then
    .ok [UInt8.ofNat (0xf0 ||| (ucs2 >>> 18)), UInt8.ofNat (0x80 ||| ((ucs2 >>> 12) &&& 0x3f)),
      UInt8.ofNat (0x80 ||| ((ucs2 >>> 6) &&& 0x3f)), UInt8.ofNat (0x80 ||| (ucs2 &&& 0x3f))]
  else .error (-1)

/-- The bytes one UCS-2 value adds to the text: a failed conversion adds nothing, and a zero byte is
overwritten by the next character. -/
def ucs2Bytes (ucs2 : ℕ) : List UInt8 :=
  match ucs2ToUtf8 ucs2 with
  | .ok bytes => bytes.filter (· ≠ 0)
  | .error _ => []

/-- The loop over the octet pairs of a UCS-2 text; a single octet at the end is paired with the
terminating zero byte. -/
def ucs2Text : List UInt8 → List UInt8
  | [] => []
  | [high] => ucs2Bytes (high.toNat <<< 8)
  | high :: low :: rest => ucs2Bytes (low.toNat ||| (high.toNat <<< 8)) ++ ucs2Text rest

/-! ## The message the modem printed -/

def smsTextSize : ℕ := 512
def smsPduHexSize : ℕ := 512
def phoneNumberSize : ℕ := 64

inductive Charset where
  | gsm7bit
  | ucs2
  deriving DecidableEq, Repr

/-- The fields of `SMS_T` that `decode_pdu` fills in. -/
structure SmsMessage where
  timestamp : SmsTime
  sender : List UInt8
  smsLenght : ℕ
  charset : Option Charset
  smsText : List UInt8
  refNumber : ℕ
  totalSegments : ℕ
  segmentNumber : ℕ
  deriving DecidableEq, Repr

def charToHex (c : UInt8) : Option ℕ :=
  if 0x30 ≤ c.toNat ∧ c.toNat ≤ 0x39 then some (c.toNat - 0x30)
  else if 0x61 ≤ c.toNat ∧ c.toNat ≤ 0x66 then some (c.toNat - 0x61 + 10)
  else if 0x41 ≤ c.toNat ∧ c.toNat ≤ 0x46 then some (c.toNat - 0x41 + 10)
  else none

/-- The octets a hexadecimal text of even length spells. -/
def hexToOctets : List UInt8 → Option (List UInt8)
  | high :: low :: rest => do
    let high ← charToHex high
    let low ← charToHex low
    return UInt8.ofNat ((high <<< 4) ||| low) :: (← hexToOctets rest)
  | _ => some []

/-- Fills in the message from the outputs of `pdu_decode`.  The text buffer of the message starts
out as zero bytes. -/
def smsOfDecoded (d : PduDecoded) : SmsMessage :=
  let (charset, text) := match alphabetOf d.tpDcs with
    | 0 => (some .gsm7bit, (cString d.text).drop (skipSeptets d.skipBytes))
    | 2 => (some .ucs2, ucs2Text ((d.text.take d.length).drop d.skipBytes))
    | _ => (none, [])
  { timestamp := d.time
    sender := d.sender
    smsLenght := d.length
    charset := charset
    smsText := text
    refNumber := d.refNumber
    totalSegments := d.totalParts
    segmentNumber := d.partNumber }

def decodePdu (smsPdu : List UInt8) : CResult SmsMessage :=
  if smsPdu.length = 0 ∨ smsPdu.length % 2 ≠ 0 ∨ smsPdu.length / 2 > smsPduHexSize then
    .error (.code (-1))
  else match hexToOctets smsPdu with
    | none => .error (.code (-1))
    | some octets => do
      let hexPdu := octets ++ List.replicate (smsPduHexSize - octets.length) 0
      let d ← pduDecode hexPdu (smsPdu.length / 2) phoneNumberSize (List.replicate smsTextSize 0)
      if d.length = 0 then .error (.code 0)
      else return smsOfDecoded d

end QModem.Sms
