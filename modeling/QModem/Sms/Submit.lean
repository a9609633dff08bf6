import QModem.Sms.Pdu

/-!
# Encoding UCS-2 Messages

`sms_normalize_number`, `sms_resolve_number`, `EncodePhoneNumber`, `utf8_to_utf16` and
`pdu_encode_ucs2_parts` of
`libqmodem-sms/src/pdu.c`.  Strings are the bytes in front of their terminating zero byte, and a
read behind the end of a string gives that zero byte.
-/

namespace QModem.Sms

/-! ## Phone numbers -/

def isDigit (c : UInt8) : Bool := 0x30 ≤ c && c ≤ 0x39

def plusSign : UInt8 := 0x2b

/-- Space, tab, parentheses and hyphen are skipped in a number. -/
def isSeparator (c : UInt8) : Bool :=
  c = 0x20 || c = 0x09 || c = 0x28 || c = 0x29 || c = 0x2d

/-- The loop of `sms_normalize_number` with the output so far. -/
def normalizeLoop (capacity : ℕ) : List UInt8 → List UInt8 → Option (List UInt8)
  | [], output => some output
  | c :: input, output =>
    if isSeparator c then normalizeLoop capacity input output
    else if !isDigit c && !(c = plusSign && output = []) then none
    else if output.length + 1 ≥ capacity then none
    else normalizeLoop capacity input (output ++ [c])

/-- Whether the collected characters are a number. -/
def isNumber (output : List UInt8) : Bool :=
  match output with
  | [] => false
  | c :: rest =>
    if c = plusSign then 2 ≤ output.length && output.length ≤ 16 && rest.head? ≠ some 0x30
    else output.length ≤ 20

def smsNormalizeNumber (input : List UInt8) (capacity : ℕ) : Option (List UInt8) :=
  if capacity < 2 then none
  else match normalizeLoop capacity input [] with
    | some output => if isNumber output then some output else none
    | none => none

/-- `sms_resolve_number`: a number without `+` gets the country code, which may be written with or
without `+`; an empty country code counts as none. -/
def smsResolveNumber (input countryCode : List UInt8) (capacity : ℕ) : Option (List UInt8) := do
  let number ← smsNormalizeNumber input 22
  if number.head? = some plusSign ∨ countryCode = [] then smsNormalizeNumber number capacity
  else
    let countryCode := if countryCode.head? = some plusSign then countryCode.tail else countryCode
    if countryCode.length < 1 ∨ 3 < countryCode.length ∨ countryCode.head? = some 0x30 ∨
        !countryCode.all isDigit then none
    else smsNormalizeNumber ((plusSign :: countryCode ++ number).take 25) capacity

/-- The loop of `EncodePhoneNumber`: semi-octets in swapped order, `F` in an unused high half. -/
def encodePhoneLoop : ℕ → List UInt8 → List UInt8 → Option (List UInt8)
  | _, output, [] => some output
  | i, output, c :: rest =>
    if !isDigit c then none
    else if i % 2 = 0 then
      encodePhoneLoop (i + 1) (output ++ [0xf0 ||| (c - 0x30)]) rest
    else
      encodePhoneLoop (i + 1)
        (output.dropLast ++ [(output.getLastD 0 &&& (0x0f : UInt8)) ||| ((c - 0x30) <<< (4 : UInt8))]) rest

def encodePhoneNumber (phoneNumber : List UInt8) (bufferSize : ℕ) : Option (List UInt8) :=
  if (phoneNumber.length + 1) / 2 > bufferSize then none
  else encodePhoneLoop 0 [] phoneNumber

/-! ## UTF-8 to UTF-16 -/

/-- The byte at `p[i]`, the terminating zero byte behind the end. -/
def byteAt (p : List UInt8) (i : ℕ) : ℕ := (p.getD i 0).toNat

/-- Whether `p[i]` is a continuation byte. -/
def isContinuation (p : List UInt8) (i : ℕ) : Bool :=
  byteAt p i ≠ 0 && byteAt p i &&& 0xc0 = 0x80

/-- The code point at the front of `p` and the number of bytes it takes. -/
def utf8CodePoint (p : List UInt8) : Option (ℕ × ℕ) :=
  let b := byteAt p 0
  if b < 0x80 then some (b, 1)
  else if b &&& 0xe0 = 0xc0 && isContinuation p 1 then
    let cp := ((b &&& 0x1f) <<< 6) ||| (byteAt p 1 &&& 0x3f)
    if cp < 0x80 then none else some (cp, 2)
  else if b &&& 0xf0 = 0xe0 && isContinuation p 1 && isContinuation p 2 then
    let cp := ((b &&& 0x0f) <<< 12) ||| ((byteAt p 1 &&& 0x3f) <<< 6) ||| (byteAt p 2 &&& 0x3f)
    if cp < 0x800 || (0xd800 ≤ cp && cp ≤ 0xdfff) then none else some (cp, 3)
  else if b &&& 0xf8 = 0xf0 && isContinuation p 1 && isContinuation p 2 && isContinuation p 3 then
    let cp := ((b &&& 0x07) <<< 18) ||| ((byteAt p 1 &&& 0x3f) <<< 12) |||
      ((byteAt p 2 &&& 0x3f) <<< 6) ||| (byteAt p 3 &&& 0x3f)
    if cp < 0x10000 || 0x10ffff < cp then none else some (cp, 4)
  else none

def unitsOf (cp : ℕ) : List ℕ :=
  if cp ≤ 0xffff then [cp]
  else [0xd800 ||| ((cp - 0x10000) >>> 10), 0xdc00 ||| ((cp - 0x10000) &&& 0x3ff)]

/-- The loop of `utf8_to_utf16`.  Every code point takes at least one byte, so as many rounds as the
text has bytes are enough. -/
def utf8ToUtf16Loop (capacity : ℕ) : ℕ → List UInt8 → List ℕ → Option (List ℕ)
  | 0, _, units => some units
  | rounds + 1, p, units =>
    if byteAt p 0 = 0 then some units
    else match utf8CodePoint p with
      | none => none
      | some (cp, bytes) =>
        if units.length + (unitsOf cp).length > capacity then none
        else utf8ToUtf16Loop capacity rounds (p.drop bytes) (units ++ unitsOf cp)

def utf8ToUtf16 (text : List UInt8) (capacity : ℕ) : Option (List ℕ) :=
  utf8ToUtf16Loop capacity text.length text []

/-! ## Parts -/

def smsMaxParts : ℕ := 16
def smsMaxPduLength : ℕ := 256

def isHighSurrogate (unit : ℕ) : Bool := 0xd800 ≤ unit && unit ≤ 0xdbff

/-- Number of units the next part takes: a pair is not cut in two. -/
def partTake (limit : ℕ) (rest : List ℕ) : ℕ :=
  let take := if rest.length < limit then rest.length else limit
  if take < rest.length && 0 < take && isHighSurrogate (rest.getD (take - 1) 0) then take - 1
  else take

/-- The counting loop for a text that needs several parts; every part takes at least one unit. -/
def countParts : ℕ → List ℕ → ℕ
  | 0, _ => 0
  | rounds + 1, rest =>
    if rest = [] then 0 else countParts rounds (rest.drop (partTake 67 rest)) + 1

def encodePart (phoneNumber : List UInt8) (international : Bool) (total reference part : ℕ)
    (units : List ℕ) : Option (List UInt8) := do
  let phone ← encodePhoneNumber phoneNumber (smsMaxPduLength - 5)
  let header : List UInt8 :=
    if 1 < total then
      [5, 0, 3, UInt8.ofNat reference, UInt8.ofNat total, UInt8.ofNat (part + 1)]
    else []
  return [0, if 1 < total then 0x51 else 0x11, 0, UInt8.ofNat phoneNumber.length,
      if international then 0x91 else 0x81] ++ phone ++
    [0, 0x08, 0xb0, UInt8.ofNat (units.length * 2 + if 1 < total then 6 else 0)] ++ header ++
    units.flatMap fun u => [UInt8.ofNat (u >>> 8), UInt8.ofNat u]

/-- The loop over the parts: `n` of them are left, `part` is the next one. -/
def encodeParts (phoneNumber : List UInt8) (international : Bool) (total reference : ℕ) :
    ℕ → ℕ → List ℕ → Option (List (List UInt8))
  | 0, _, _ => some []
  | n + 1, part, rest => do
    let take := partTake (if total = 1 then 70 else 67) rest
    let pdu ← encodePart phoneNumber international total reference part (rest.take take)
    let pdus ← encodeParts phoneNumber international total reference n (part + 1) (rest.drop take)
    return pdu :: pdus

/-- Encodes a text as the PDUs of one or more parts. -/
def pduEncodeUcs2Parts (phoneNumber utf8Text : List UInt8) (maxParts reference : ℕ) :
    Option (List (List UInt8)) :=
  if phoneNumber = [] || maxParts < 1 || smsMaxParts < maxParts then none
  else match smsNormalizeNumber phoneNumber 22 with
    | none => none
    | some normalized =>
      let international := normalized.head? = some plusSign
      let number := if international then normalized.drop 1 else normalized
      match utf8ToUtf16 utf8Text (smsMaxParts * 67) with
      | none => none
      | some units =>
        let total := if units.length ≤ 70 then 1 else countParts units.length units
        if total > maxParts then none
        else encodeParts number international total reference total 0 units

end QModem.Sms
