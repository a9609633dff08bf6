import QModem.Sip.Credentials

/-!
# The SIP Gateway

`sip_gateway.c` of `qmodem_sipd`: how many requests of an address are let through, the nonces of
digest authentication, the media that a session description offers, and the record of the call.

Sizes are those of the buffers in `sip_gateway.h`, with room for the final zero.
-/

namespace QModem.Sip

open Lib

/-! ## Rates -/

/-- `struct qmodem_voip_sip_rate` -/
structure Rate where
  address : UInt32
  windowStart : UInt64
  count : ℕ
  deriving DecidableEq

/-- The slot of an address, or else the one whose window has started first. -/
def rateSlot (address : UInt32) : List Rate → ℕ → Option (ℕ × Rate) → Option (ℕ × Rate)
  | [], _, slot => slot
  | rate :: rates, i, slot =>
    if rate.address = address then some (i, rate)
    else
      rateSlot address rates (i + 1) <|
        match slot with
        | none => some (i, rate)
        | some (j, oldest) =>
          if rate.windowStart < oldest.windowStart then some (i, rate) else some (j, oldest)

/-- `qmodem_voip_sip_rate_allow` -/
def rateAllow (rates : List Rate) (address : UInt32) (now : UInt64) (limit : ℕ) :
    List Rate × Bool :=
  match rateSlot address rates 0 none with
  | none => (rates, false)
  | some (i, rate) =>
    let rate : Rate :=
      if rate.address ≠ address || 60 ≤ now - rate.windowStart then ⟨address, now, 0⟩ else rate
    if limit ≤ rate.count then (rates.set i rate, false)
    else (rates.set i { rate with count := rate.count + 1 }, true)

/-! ## Nonces -/

/-- `struct qmodem_voip_sip_nonce`; the value of a free slot is empty. -/
structure Nonce where
  address : UInt32
  issued : UInt64
  lastNc : ℕ
  value : Text
  deriving DecidableEq

/-- The first free slot, or else the one that was issued first. -/
def nonceSlot : List Nonce → ℕ → Option (ℕ × Nonce) → Option (ℕ × Nonce)
  | [], _, slot => slot
  | nonce :: nonces, i, slot =>
    if nonce.value = [] then some (i, nonce)
    else
      nonceSlot nonces (i + 1) <|
        match slot with
        | none => some (i, nonce)
        | some (j, oldest) => if nonce.issued < oldest.issued then some (i, nonce) else some (j, oldest)

/-- `qmodem_voip_sip_nonce_issue`, with the random bytes if there are any: the slots afterwards and
the new nonce. -/
def nonceIssue (nonces : List Nonce) (address : UInt32) (now : UInt64) (random : Option (List UInt8)) :
    Option (List Nonce × Text) := do
  let bytes ← random
  let (i, _) ← nonceSlot nonces 0 none
  let value : Text := bytes.flatMap fun byte : UInt8 =>
    [hex.getD (byte >>> 4).toNat 0, hex.getD (byte &&& 0x0f).toNat 0]
  return (nonces.set i ⟨address, now, 0, value⟩, value)

/-- `enum qmodem_voip_sip_nonce_result`, with the slot that was accepted. -/
inductive NonceResult where
  | ok (slot : ℕ)
  | unknown
  | expired
  | replayed
  deriving DecidableEq

/-- `qmodem_voip_sip_nonce_check` from slot `i` on -/
def nonceCheck (address : UInt32) (nonce : Text) (now : UInt64) (nc : ℕ) :
    List Nonce → ℕ → NonceResult
  | [], _ => .unknown
  | slot :: slots, i =>
    if slot.address ≠ address || slot.value ≠ nonce then nonceCheck address nonce now nc slots (i + 1)
    else if now < slot.issued || 60 ≤ now - slot.issued then .expired
    else if nc = 0 || nc ≤ slot.lastNc then .replayed
    else .ok i

/-- `qmodem_voip_sip_nonce_commit` -/
def nonceCommit (nonces : List Nonce) (slot nc : ℕ) : List Nonce :=
  nonces.modify slot fun nonce => if nonce.lastNc < nc then { nonce with lastNc := nc } else nonce

/-! ## Addresses and media -/

/-- A dot at the start of the text is skipped. -/
def skipDot : Text → Option Text
  | 46 :: text => some text
  | _ => none

/-- `qmodem_voip_sip_valid_lan_address` -/
def validLanAddress (address : Text) : Bool :=
  let scanned : Option (List ℕ × Text) := do
    let (a, text) ← scanUnsigned address
    let (b, text) ← scanUnsigned (← skipDot text)
    let (c, text) ← scanUnsigned (← skipDot text)
    let (d, text) ← scanUnsigned (← skipDot text)
    return ([a, b, c, d], text)
  match scanned with
  | some (octets, []) => octets.all (· ≤ 255) && octets.any (· ≠ 0)
  | _ => false

/-- An octet as `inet_pton` takes it: one to three digits without a leading zero. -/
def octet (text : Text) : Option ℕ :=
  let value := text.foldl (fun value c => 10 * value + digitValue c) 0
  if text ≠ [] && text.length ≤ 3 && text.all isdigit && (text.length = 1 || text.head? ≠ some 48) &&
      value ≤ 255 then
    some value
  else none

/-- `inet_pton` for an IPv4 address -/
def inetPton (text : Text) : Option (List ℕ) :=
  let parts := text.splitOn 46
  if parts.length = 4 then parts.mapM octet else none

/-- `struct qmodem_voip_sip_media` -/
structure Media where
  address : Text
  port : ℕ
  payloadType : ℕ
  deriving DecidableEq

/-- `QMODEM_VOIP_SIP_MEDIA_ADDRESS_SIZE` -/
def mediaAddressSize : ℕ := 16

/-- What `qmodem_voip_sip_parse_media` has read so far. -/
structure Offer where
  address : Text
  port : ℕ
  pcma : Bool
  pcmu : Bool

namespace Offer

/-- A format of the list behind the port. -/
def format (offer : Offer) (token : Text) : Offer :=
  match strtoul 10 token with
  | some (8, []) => { offer with pcma := true }
  | some (0, []) => { offer with pcmu := true }
  | _ => offer

/-- One pass of the loop over the lines. -/
def line (offer : Offer) (line : Text) : Option Offer :=
  if (ascii "c=IN IP4 ").isPrefixOf line then
    if !validLanAddress (line.drop 9) || offer.address ≠ [] then none
    else some { offer with address := (line.drop 9).take (mediaAddressSize - 1) }
  else if (ascii "m=audio ").isPrefixOf line then
    match strstr (ascii " RTP/AVP ") (line.drop 8), scanUnsigned (line.drop 8) with
    | some formats, some (port, _) =>
      if offer.port ≠ 0 || port = 0 || 65535 < port then none
      else some ((tokens [32] (formats.drop 9)).foldl format { offer with port })
    | _, _ => none
  else some offer

end Offer

/-- `qmodem_voip_sip_parse_media` -/
def parseMedia (body : Text) : Option Media :=
  -- `copy` has 2049 bytes
  if body = [] || 2049 ≤ body.length then none
  else
    match (tokens [13, 10] (cString body)).foldlM Offer.line ⟨[], 0, false, false⟩ with
    | none => none
    | some offer =>
      if offer.address = [] || offer.port = 0 || (!offer.pcma && !offer.pcmu) then none
      else some ⟨offer.address, offer.port, if offer.pcma then 8 else 0⟩

/-! ## The record of the call -/

/-- `enum qmodem_voip_sip_call_origin` -/
inductive CallOrigin where
  | lan
  | cellular
  deriving DecidableEq

/-- `struct qmodem_voip_sip_call` -/
structure CallRecord where
  active : Bool
  established : Bool
  origin : CallOrigin
  cseq : ℕ
  callId : Text
  remoteTag : Text
  branch : Text
  deriving DecidableEq

/-- `QMODEM_VOIP_SIP_CALL_ID_SIZE` -/
def callIdSize : ℕ := 128

/-- `QMODEM_VOIP_SIP_TAG_SIZE` -/
def tagSize : ℕ := 96

/-- `QMODEM_VOIP_SIP_BRANCH_SIZE` -/
def branchSize : ℕ := 128

namespace CallRecord

/-- `qmodem_voip_sip_call_clear` and `qmodem_voip_sip_call_release` -/
def clear : CallRecord := ⟨false, false, .lan, 0, [], [], []⟩

/-- `qmodem_voip_sip_call_begin`, unless it refuses the names. -/
def begun (origin : CallOrigin) (callId remoteTag branch : Text) (cseq : ℕ) : Option CallRecord :=
  if callId = [] || remoteTag = [] || branch = [] || callIdSize ≤ callId.length ||
      tagSize ≤ remoteTag.length || branchSize ≤ branch.length then none
  else some ⟨true, false, origin, cseq, callId, remoteTag, branch⟩

end CallRecord

end QModem.Sip
