import QModem.Sip.Gateway
import QModem.Voip.Daemon

/-!
# REGISTER, INVITE and UPDATE

`sip_consumer.c` of `qmodem_sipd`, as far as it handles REGISTER, INVITE and UPDATE.  A phone of the
LAN registers the address at which it is called.  The gateway has one call record.  A request inside
the dialog of this call negotiates its media anew; every other INVITE is a new call, for which the
gateway asks the voice daemon.

`Consumer` holds the fields of `struct consumer` that these handlers use, the voice daemon at the
other end of the bus, and the responses to the request in hand.  `Outside` is what the request meets
outside: the clock, random bytes, what PJSIP says and does, and the bus.  The responses of
`send_response` are always sent.
-/

namespace QModem.Sip

open Lib
open Voip (Endpoint Action)

/-! ## Requests -/

inductive Method where
  | register
  | invite
  | update
  deriving DecidableEq

/-- The header `Authorization`, as far as the gateway reads it itself. -/
structure Authorization where
  qop : Text
  nonce : Text
  nc : Text

/-- The header `Contact`: all addresses, or one with the seconds that it asks for. -/
inductive Contact where
  | star
  | uri (uri : Text) (expires : Option ℤ)

/-- A request as PJSIP hands it over.  User and host are those of the request URI, and empty if
there are none. -/
structure Request where
  method : Method
  length : ℕ
  source : UInt32
  /-- It came over a secure transport that the gateway has opened. -/
  overOwnTls : Bool
  user : Text
  host : Text
  callId : Option Text
  fromTag : Option Text
  branch : Option Text
  cseq : Option ℤ
  contact : Option Contact
  /-- The header `Expires`. -/
  expires : Option ℤ
  body : Option Text
  authorization : Option Authorization

structure Identity where
  callId : Text
  remoteTag : Text
  branch : Text
  cseq : ℕ

/-- `copy_pj_string` -/
def copyPjString (size : ℕ) (value : Option Text) : Option Text :=
  match value with
  | none => none
  | some text => if text = [] || size ≤ text.length then none else some (cString text)

namespace Request

variable (r : Request)

/-- `request_identity` -/
def identity : Option Identity := do
  let cseq ← r.cseq
  if cseq < 0 then none
  else
    return ⟨← copyPjString callIdSize r.callId, ← copyPjString tagSize r.fromTag,
      ← copyPjString branchSize r.branch, cseq.toNat⟩

/-- `sip_number` -/
def number : Option Text :=
  if r.user = [] || 64 ≤ r.user.length then none
  else if r.user.all (· ∈ ascii "0123456789+*#,p") then some r.user
  else none

/-- `request_expiry`, for a contact that asks for these seconds -/
def expiry (expires : Option ℤ) : ℕ :=
  let value := (expires.or r.expires).getD 3600
  if value = 0 then 0
  else if value < 60 then 60
  else if 3600 < value then 3600
  else value.toNat

/-- `supported_sdp` -/
def media : Option Media :=
  match r.body with
  | none => none
  | some body => if 2048 < body.length then none else parseMedia body

end Request

/-! ## The gateway -/

/-- The bus while a method of the voice daemon is called: whether it is found there, what the method
meets, and whether its reply arrives in time. -/
structure Bus where
  found : Bool
  env : Voip.Surroundings
  ready : Bool
  replied : Bool

structure Outside where
  now : UInt64
  random : Option (List UInt8)
  /-- `pjsip_auth_srv_verify`: the status for wrong credentials, and none if they are right. -/
  verdict : Option ℕ
  /-- `pjsip_endpt_create_response` for the answer succeeds. -/
  created : Bool
  /-- The PJSIP calls of `set_lan_answer` succeed. -/
  composed : Bool
  /-- `pjsip_get_response_addr` succeeds. -/
  addressed : Bool
  /-- The response to a refresh is sent. -/
  sent : Bool
  /-- The bus at the `hangup` of the call before, at `originate` and at a `hangup` afterwards. -/
  stop : Bus
  originate : Bus
  undo : Bus

structure Response where
  status : ℕ
  /-- The nonce of a challenge, and whether the one before was stale. -/
  challenge : Option (Text × Bool)

/-- `struct sockaddr_in` of the RTP peer -/
structure Peer where
  address : List ℕ
  port : ℕ
  deriving DecidableEq

/-- `BINDING_SIZE` -/
def bindingSize : ℕ := 384

structure Consumer where
  outbound : Bool
  challengeNonce : Text
  nonces : List Nonce
  binding : Text
  bindingUntil : ℕ
  authRates : List Rate
  inviteRates : List Rate
  call : CallRecord
  media : Media
  mediaAttached : Bool
  rtpOpen : Bool
  rtpAttached : Bool
  rtpPeer : Peer
  rtpCodec : ℕ
  /-- The answer to the INVITE in hand: its `Call-ID` and payload type. -/
  pendingLanResponse : Option (Option Text × ℕ)
  /-- The `Call-ID` of the last answer that was sent. -/
  lanAnswer : Option Text
  lanAcked : Bool
  lanByePending : Bool
  dialogContact : Text
  /-- The `Call-ID`s and the targets of the BYE requests that were sent. -/
  byes : List (Text × Text)
  voice : Voip.Context
  responses : List Response

namespace Consumer

variable (out : Outside) (g : Consumer) (r : Request)

/-- `send_response` without a challenge -/
def respond (status : ℕ) : Consumer := { g with responses := g.responses ++ [⟨status, none⟩] }

/-- `send_response` with a challenge -/
def respondChallenge (stale : Bool) : Consumer :=
  { g with responses := g.responses ++ [⟨401, some (g.challengeNonce, stale)⟩] }

/-! ## Authentication -/

/-- `trusted_outbound_request` -/
def trusted : Bool := g.outbound && r.overOwnTls

/-- `nonce_check`: the slot of the nonce and the nonce count. -/
def acceptedNonce : Option (ℕ × ℕ) := do
  let header ← r.authorization
  if header.qop ≠ ascii "auth" || header.nonce.length ≠ 32 || header.nc.length ≠ 8 then none
  else
    match strtoul 16 (cString header.nc) with
    | some (nc, []) =>
      match nonceCheck r.source (cString header.nonce) out.now nc g.nonces 0 with
      | .ok slot => some (slot, nc)
      | _ => none
    | _ => none

/-- A request with a wrong or without a nonce gets a new one, unless there were too many of them. -/
def challenge (stale : Bool) : Consumer :=
  let (authRates, allowed) := rateAllow g.authRates r.source out.now 10
  let g : Consumer := { g with authRates }
  if !allowed then g.respond 403
  else
    match nonceIssue g.nonces r.source out.now out.random with
    | none => g.respond 503
    | some (nonces, value) => { g with nonces, challengeNonce := value }.respondChallenge stale

/-- `authenticate` -/
def authenticate : Consumer × Bool :=
  match g.acceptedNonce out r with
  | none => (g.challenge out r r.authorization.isSome, false)
  | some (slot, nc) =>
    match out.verdict with
    | some status =>
      let (authRates, allowed) := rateAllow g.authRates r.source out.now 10
      ({ g with authRates }.respond (if allowed then status else 403), false)
    | none => ({ g with nonces := nonceCommit g.nonces slot nc }, true)

/-- Requests of the server that the gateway is registered with need no authentication. -/
def admission : Consumer × Bool := if g.trusted r then (g, true) else g.authenticate out r

/-! ## Parts of the handlers -/

/-- `binding_active` -/
def bindingActive : Bool := g.binding ≠ [] && out.now.toNat < g.bindingUntil

/-- `set_lan_answer` -/
def setLanAnswer (payloadType : ℕ) : Bool :=
  (payloadType = 8 || payloadType = 0) && r.host ≠ [] && r.host.length < 16 &&
    (inetPton (cString r.host)).isSome && out.composed

/-- `ubus_action` -/
def ubusAction (bus : Bus) (action : Action) : Consumer × Bool :=
  let endpoint : Endpoint := if g.outbound then .externalSip else .lanSip
  ({ g with
      voice := if bus.found then g.voice.request bus.env bus.ready endpoint action else g.voice },
    bus.found && bus.replied && g.voice.granted bus.env bus.ready endpoint action)

/-- `detach_media` -/
def detachMedia : Consumer := { g with mediaAttached := false, rtpOpen := false, rtpAttached := false }

/-- `stop_media` -/
def stopMedia : Consumer := (g.detachMedia.ubusAction out.stop .hangup).1

/-- `remember_lan_answer` -/
def rememberLanAnswer (answer : Option Text) : Consumer :=
  { g with lanAnswer := answer, lanAcked := false, lanByePending := false }

/-- `send_lan_bye` -/
def sendLanBye : Consumer :=
  match g.lanAnswer with
  | some callId =>
    -- without a target no BYE is sent
    if g.dialogContact ≠ [] then { g with byes := g.byes ++ [(callId, g.dialogContact)] } else g
  | none => g

/-- `lan_bye_flush` -/
def lanByeFlush : Consumer := { g.sendLanBye.rememberLanAnswer none with dialogContact := [] }

/-- `save_dialog_contact` -/
def saveDialogContact : Consumer :=
  match r.contact with
  | some (.uri uri _) => { g with dialogContact := if uri.length < bindingSize then uri else [] }
  | _ => g

/-! ## The handlers -/

/-- The response to a phone that has registered or left. -/
def acceptRegister : Consumer := if out.created then g.respond 200 else g

/-- `register_contact`, without the INVITE that is sent again for a call that waits.  A contact that
does not fit leaves the binding as it was. -/
def registerContact : Consumer :=
  let (g, accepted) := g.authenticate out r
  if !accepted then g
  else
    match r.contact with
    | none | some .star => g.respond 400
    | some (.uri uri expires) =>
      if r.expiry expires = 0 then { g with binding := [], bindingUntil := 0 }.acceptRegister out
      else if bindingSize ≤ uri.length then g.respond 400
      else
        { g with
          binding := uri
          bindingUntil := out.now.toNat + r.expiry expires }.acceptRegister out

/-- The call of the gateway is over, and the voice daemon hangs up. -/
def dropCall : Consumer := { g.stopMedia out with call := .clear }

/-- The dialog of a new call takes the place of the one before. -/
def openDialog : Consumer :=
  let g := if g.lanByePending then g.lanByeFlush else g
  { g.rememberLanAnswer none with dialogContact := [] }.saveDialogContact r

/-- The last part of `invite_call`, when the voice daemon has made the call. -/
def beginCall (media : Media) (identity : Identity) : Consumer :=
  match CallRecord.begun .lan identity.callId identity.remoteTag identity.branch identity.cseq with
  | none => (g.ubusAction out.undo .hangup).1.respond 503
  | some call =>
    let g := { g with call, media }.openDialog r
    if out.created && setLanAnswer out r media.payloadType && out.addressed then
      let g : Consumer := { g with pendingLanResponse := some (r.callId, media.payloadType) }
      (g.respond 100).respond 180
    else
      let g : Consumer := { (g.ubusAction out.undo .hangup).1 with call := .clear }
      g.respond 503

/-- The middle part of `invite_call`, when all checks have passed that do not depend on the call. -/
def placeCall (media : Media) : Consumer :=
  -- the call before is gone, whatever becomes of this one
  let g := if g.call.active then g.dropCall out else g
  match r.number, r.identity with
  | some number, some identity =>
    let (g, originated) := g.ubusAction out.originate (.originate number)
    if !originated then g.respond 503 else g.beginCall out r media identity
  | _, _ => g.respond 488

/-- `invite_call` -/
def inviteCall : Consumer :=
  let (inviteRates, allowed) := rateAllow g.inviteRates r.source out.now 5
  let g : Consumer := { g with inviteRates }
  if !allowed then g.respond 503
  else
    let (g, admitted) := g.admission out r
    if !admitted then g
    else
      match r.media with
      | none => g.respond 488
      | some media =>
        if !g.bindingActive out then g.respond 486 else g.placeCall out r media

/-- The request belongs to the dialog of the call. -/
def inDialog : Bool :=
  g.call.active && g.call.established && g.call.origin = .lan &&
    match r.identity with
    | none => false
    | some identity => identity.callId = g.call.callId && identity.remoteTag = g.call.remoteTag

/-- The response to a refresh is sent. -/
def acceptRefresh : Consumer :=
  if out.sent then (g.saveDialogContact r).respond 200 else g

/-- The media of a refresh take the place of those before. -/
def refreshMedia (media : Media) : Consumer :=
  let g : Consumer := { g with media }
  if g.mediaAttached then
    -- codec and port of the stream are set before the address is looked at
    let g : Consumer :=
      { g with rtpCodec := media.payloadType, rtpPeer := { g.rtpPeer with port := media.port } }
    match inetPton media.address with
    | none => g.respond 488
    | some address => { g with rtpPeer := { g.rtpPeer with address } }.acceptRefresh out r
  else g.acceptRefresh out r

/-- `in_dialog_media_refresh`, for a request of the dialog -/
def inDialogMediaRefresh : Consumer :=
  let (g, admitted) := g.admission out r
  if !admitted then g
  else
    match r.media with
    | none => g.respond 488
    | some media =>
      if out.created && setLanAnswer out r media.payloadType then g.refreshMedia out r media
      else g.respond 503

/-- `on_request` for REGISTER, INVITE and UPDATE -/
def onRequest : Consumer :=
  let g : Consumer := { g with responses := [] }
  if 4096 < r.length then g.respond 413
  else if r.method = .register then
    if g.outbound then g.respond 405 else g.registerContact out r
  -- `in_dialog_media_refresh` comes first and tells whether the request is one of its own
  else if g.inDialog r then g.inDialogMediaRefresh out r
  else if r.method = .invite then g.inviteCall out r
  else g.respond 405

end Consumer

end QModem.Sip
