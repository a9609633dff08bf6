import QModem.Sms.PhoneOctets

/-!
# Encoding GSM 7-bit Messages

`AsciiToG7bit`, `EncodePDUMessage` and `pdu_encode` of `libqmodem-sms/src/pdu.c`.

The output buffer is modelled by the bytes written to it so far: every assignment of `pdu_encode`
goes to the first byte that is still free, except where a length of minus one moves that place back.
The array for the septets is filled in the same way, and what stands behind the septets in it is
whatever the stack held.
-/

namespace QModem.Sms

open Lib

/-! ## Characters to septets -/

/-- The septet of a question mark, for a character that the alphabet does not have. -/
def npc : ℤ := 0x3f

/-- The septet of each Latin-1 character, negative when it stands in the extension table. -/
def latin1ToGsm7bits : List ℤ :=
  [  npc,   npc,   npc,   npc,   npc,   npc,   npc,   npc,
     npc,   npc,  0x0a,   npc, -0x0a,  0x0d,   npc,   npc,
     npc,   npc,   npc,   npc,   npc,   npc,   npc,   npc,
     npc,   npc,   npc,   npc,   npc,   npc,   npc,   npc,
    0x20,  0x21,  0x22,  0x23,  0x02,  0x25,  0x26,  0x27,
    0x28,  0x29,  0x2a,  0x2b,  0x2c,  0x2d,  0x2e,  0x2f,
    0x30,  0x31,  0x32,  0x33,  0x34,  0x35,  0x36,  0x37,
    0x38,  0x39,  0x3a,  0x3b,  0x3c,  0x3d,  0x3e,  0x3f,
    0x00,  0x41,  0x42,  0x43,  0x44,  0x45,  0x46,  0x47,
    0x48,  0x49,  0x4a,  0x4b,  0x4c,  0x4d,  0x4e,  0x4f,
    0x50,  0x51,  0x52,  0x53,  0x54,  0x55,  0x56,  0x57,
    0x58,  0x59,  0x5a, -0x3c, -0x2f, -0x3e, -0x14,  0x11,
     npc,  0x61,  0x62,  0x63,  0x64,  0x65,  0x66,  0x67,
    0x68,  0x69,  0x6a,  0x6b,  0x6c,  0x6d,  0x6e,  0x6f,
    0x70,  0x71,  0x72,  0x73,  0x74,  0x75,  0x76,  0x77,
    0x78,  0x79,  0x7a, -0x28, -0x40, -0x29, -0x3d,   npc,
     npc,   npc,   npc,   npc,   npc,   npc,   npc,   npc,
     npc,   npc,   npc,   npc,   npc,   npc,   npc,   npc,
     npc,   npc,   npc,   npc,   npc,   npc,   npc,   npc,
     npc,   npc,   npc,   npc,   npc,   npc,   npc,   npc,
     npc,  0x40,   npc,  0x01,  0x24,  0x03,   npc,  0x5f,
     npc,   npc,   npc,   npc,   npc,   npc,   npc,   npc,
     npc,   npc,   npc,   npc,   npc,   npc,   npc,   npc,
     npc,   npc,   npc,   npc,   npc,   npc,   npc,  0x60,
     npc,   npc,   npc,   npc,  0x5b,  0x0e,  0x1c,  0x09,
     npc,  0x1f,   npc,   npc,   npc,   npc,   npc,   npc,
     npc,  0x5d,   npc,   npc,   npc,   npc,  0x5c,   npc,
    0x0b,   npc,   npc,   npc,  0x5e,   npc,   npc,  0x1e,
    0x7f,   npc,   npc,   npc,  0x7b,  0x0f,  0x1d,   npc,
    0x04,  0x05,   npc,   npc,  0x07,   npc,   npc,   npc,
     npc,  0x7d,  0x08,   npc,   npc,   npc,  0x7c,   npc,
    0x0c,  0x06,   npc,   npc,  0x7e,   npc,   npc,   npc]

def gsm7Value (c : UInt8) : ℤ := latin1ToGsm7bits.getD c.toNat npc

def smsMax7bitTextLength : ℕ := 160

/-- The loop of `EncodePDUMessage` with the octets so far; each round takes at least one septet, so
as many rounds as there are septets are enough.  The result is the octets with the `i` and
`carry_on_bits` the loop was left with. -/
def encodePDULoop (smsText : List UInt8) (smsTextLength bufferSize : ℕ) :
    ℕ → ℕ → ℕ → List UInt8 → CResult (List UInt8 × ℕ × ℕ)
  | 0, i, carryOnBits, output => .ok (output, i, carryOnBits)
  | rounds + 1, i, carryOnBits, output =>
    if i + 1 < smsTextLength then do
      let low ← readAt smsText i
      let high ← readAt smsText (i + 1)
      let output ← append bufferSize output
        [UInt8.ofNat (((low.toNat &&& 0x7f) >>> (carryOnBits - 1)) |||
          ((high.toNat &&& 0x7f) <<< (8 - carryOnBits)))]
      if carryOnBits + 1 = 8 then
        -- the next septet has gone into this octet as a whole
        encodePDULoop smsText smsTextLength bufferSize rounds (i + 2) 1 output
      else encodePDULoop smsText smsTextLength bufferSize rounds (i + 1) (carryOnBits + 1) output
    else .ok (output, i, carryOnBits)

/-- Packs the first `smsTextLength` septets of `smsText` into a buffer of `bufferSize` octets. -/
def encodePDUMessage (smsText : List UInt8) (smsTextLength bufferSize : ℕ) :
    CResult (List UInt8) :=
  if (smsTextLength * 7 + 7) / 8 > bufferSize then .error (.code (-1))
  else do
    let (output, i, carryOnBits) ←
      encodePDULoop smsText smsTextLength bufferSize smsTextLength 0 1 []
    if i ≤ smsTextLength then do
      let last ← readAt smsText i
      append bufferSize output [UInt8.ofNat ((last.toNat &&& 0x7f) >>> (carryOnBits - 1))]
    else return output

/-! ## The message -/

def typeOfAddressUnknown : UInt8 := 0x81
def typeOfAddressInternationalPhone : UInt8 := 0x91
def smsSubmit : UInt8 := 0x11

/-- The octets of the service centre with their length.  The code of a number that could not be
encoded is minus one, which the type of address makes a length of zero: the check behind the call
asks for a length that is both negative and at least 254. -/
def serviceCentreOctets (serviceCenterNumber : List UInt8) (bufferSize : ℕ) : List UInt8 :=
  if serviceCenterNumber = [] then [0]
  else match encodePhoneNumber serviceCenterNumber (bufferSize - 2) with
    | some octets => UInt8.ofNat (octets.length + 1) :: typeOfAddressInternationalPhone :: octets
    | none => [0]

end QModem.Sms
