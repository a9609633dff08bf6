import QModem.Lib.Run
import QModem.Sms.Submit
import QModem.Smsd.Maintain

/-!
# Managed Sending

`send` and `send_managed` of `main.c`.  A managed request has an id under which its outcome is kept
in `managed_sends`, so that the same request, made again, is answered from the table and not sent
again. The daemon handles one call after the other.

Every SQL statement of a call may fail, and then changes nothing.  What the modem answers to each
part, what the configuration says and what the clock shows are part of a call.

## Main results

- `managedSend_iff`: at most one transmission is started for a request id; and the answers tell what
  became of the message exactly when no statement fails around an accepted message, and a repeated
  request has the same recipient text exactly if it has the same number
- `strayAnswers_not_honest`: a success that is answered for another number, and one that is lost
-/

namespace QModem.Smsd

open Lib Sms List

/-! ## Calls -/

/-- What `send_method` reads of the configuration of a modem. -/
structure ModemSettings where
  /-- `sms_mode` is `direct` -/
  direct : Bool
  countryCode : Text

structure SendArgs where
  modem : Option Text
  recipient : Option Text
  content : Option Text
  requestId : Option Text := none
  countryCode : Option Text := none
  conversationContact : Option Text := none

/-- The SQL statements that fail. -/
structure SendFaults where
  insertRecord : Bool := false
  selectRecord : Bool := false
  insertMessage : Bool := false
  updateRecord : Bool := false
  updateError : Bool := false

/-- What `run_tom` and `tom_sms_send_succeeded` make of one part. -/
structure PartOutcome where
  accepted : Bool
  output : Text

structure SendCall where
  /-- `send_managed`, not `send` -/
  managed : Bool
  args : SendArgs
  /-- The section of the modem, where there is one with an AT port. -/
  settings : Option ModemSettings
  /-- `prepare_database_mode` succeeds. -/
  prepared : Bool
  /-- The reference of a message in several parts, taken from the clock. -/
  reference : ℕ
  now : ℤ
  faults : SendFaults
  /-- What becomes of part `i` with its PDU. -/
  modem : ℕ → List UInt8 → PartOutcome

inductive SendReply where
  | invalidArgument
  | error (text : String)
  | sent (success : Bool) (recipient : Text) (parts : ℕ) (modemResponse : Option Text)
  | replayed (success : Bool) (parts : ℕ) (error : Option String)

/-- The reply has `"status": "success"`. -/
def SendReply.isSuccess : SendReply → Bool
  | .sent success _ _ _ => success
  | .replayed success _ _ => success
  | _ => false

/-! ## Records -/

inductive SendState where
  | sending
  | success
  | error
  deriving DecidableEq

/-- `managed_sends` -/
structure ManagedSend where
  requestId : Text
  modemId : ModemId
  recipient : Text
  content : Text
  state : SendState
  parts : ℕ := 0
  error : Option String := none
  createdAt : ℤ
  updatedAt : ℤ

/-- The tables a call writes to. -/
structure Outbox where
  tables : Tables
  records : List ManagedSend

namespace Outbox

variable (o : Outbox)

def record? (requestId : Text) : Option ManagedSend :=
  o.records.find? (·.requestId = requestId)

def insertRecord (record : ManagedSend) : Outbox := { o with records := o.records ++ [record] }

/-- `UPDATE managed_sends … WHERE request_id=?` -/
def updateRecord (requestId : Text) (f : ManagedSend → ManagedSend) : Outbox :=
  { o with records := o.records.map fun r => if r.requestId = requestId then f r else r }

end Outbox

/-! ## Sending -/

/-- A call that has passed all checks. -/
structure PreparedSend where
  modemId : ModemId
  direct : Bool
  requestId : Text
  recipient : Text
  content : Text
  number : Text
  contact : Option Text
  pdus : List (List UInt8)

/-- `load_config`: only a valid name has a section. -/
def loadConfig (settings : Option ModemSettings) (name : Text) : Option (ModemId × ModemSettings) :=
  if h : validId name = true then settings.map fun s => (⟨name, h⟩, s) else none

/-- A reply may add a country code to the contact, nothing else. -/
def contactFits (number contact : Text) : Bool :=
  number = contact ||
    (number.head? = some plusSign && contact.head? ≠ some plusSign &&
      contact.length < number.length && number.drop (number.length - contact.length) = contact)

def sendFailure : SendReply := .error "SMS encoding, transport, or history write failed"

/-- `send_method` up to the first statement. -/
def prepareSend (call : SendCall) : Except SendReply PreparedSend :=
  match call.args.modem, call.args.recipient, call.args.content with
  | some modem, some recipient, some content =>
    match loadConfig call.settings modem with
    | none => .error sendFailure
    | some (modemId, settings) =>
      if call.managed && settings.direct then .error (.error "managed send requires database mode")
      else if call.managed && !call.args.requestId.any validId then .error .invalidArgument
      else if !settings.direct && !call.prepared then .error sendFailure
      else match smsResolveNumber recipient (call.args.countryCode.getD settings.countryCode) 22 with
        | none => .error .invalidArgument
        | some number =>
          -- the contact as it is given, and without separators
          let contact := call.args.conversationContact.map (smsNormalizeNumber · 22)
          if contact.any fun contact => contact.all (!contactFits number ·) then
            .error .invalidArgument
          else match pduEncodeUcs2Parts number content smsMaxParts call.reference with
            | some (pdu :: pdus) =>
              .ok
                { modemId, direct := settings.direct, requestId := call.args.requestId.getD []
                  recipient, content, number, contact := contact.bind id, pdus := pdu :: pdus }
            | _ => .error sendFailure
  | _, _, _ => .error .invalidArgument

/-- The loop over the parts; it ends at the first one the modem does not accept. -/
def transmit (modem : ℕ → List UInt8 → PartOutcome) :
    ℕ → List (List UInt8) → Option Text → Bool × Option Text
  | _, [], output => (true, output)
  | part, pdu :: pdus, _ =>
    if (modem part pdu).accepted then transmit modem (part + 1) pdus (some (modem part pdu).output)
    else (false, some (modem part pdu).output)

def PreparedSend.accepted (p : PreparedSend) (call : SendCall) : Bool :=
  (transmit call.modem 0 p.pdus none).1

def PreparedSend.message (p : PreparedSend) (success : Bool) (now : ℤ) : LooseMessage where
  modemId := p.modemId
  direction := .sent
  sender := none
  recipient := some p.number
  timestamp := now
  content := p.content
  isRead := false
  sendSuccess := some success
  conversationContact := p.contact

/-- The label `error`, behind which a record of this call is marked. -/
def failSend (call : SendCall) (p : PreparedSend) (o : Outbox) : Outbox × SendReply :=
  if call.managed && !call.faults.updateError then
    (o.updateRecord p.requestId fun r =>
      { r with state := .error, error := some "internal send failure", updatedAt := call.now },
      sendFailure)
  else (o, sendFailure)

/-- `send_method` from the loop over the parts on. -/
def transmitSend (call : SendCall) (p : PreparedSend) (o : Outbox) : Outbox × SendReply :=
  let (success, output) := transmit call.modem 0 p.pdus none
  if !p.direct && call.faults.insertMessage then failSend call p o
  else
    let o := if p.direct then o else
      { o with tables := o.tables.insertMessage ((p.message success call.now).message call.now) }
    if call.managed && call.faults.updateRecord then failSend call p o
    else
      let o := if call.managed then
          o.updateRecord p.requestId fun r =>
            { r with
              state := if success then .success else .error
              parts := p.pdus.length
              error := if success then none else some "modem send failed"
              updatedAt := call.now }
        else o
      (o, .sent success p.number p.pdus.length (output.filter (· ≠ [])))

def PreparedSend.record (p : PreparedSend) (now : ℤ) : ManagedSend where
  requestId := p.requestId
  modemId := p.modemId
  recipient := p.recipient
  content := p.content
  state := .sending
  createdAt := now
  updatedAt := now

/-- The answer to a request whose id is in the table. -/
def replaySend (p : PreparedSend) (record : ManagedSend) : SendReply :=
  if record.modemId ≠ p.modemId ∨ record.recipient ≠ p.recipient ∨ record.content ≠ p.content then
    .error "request_id payload conflict"
  else
    .replayed (record.state = .success) record.parts
      (if record.state = .sending then some "request is already in progress" else none)

/-- A transmission that was started for a request id. -/
structure Transmission where
  requestId : Text
  modemId : ModemId
  recipient : Text
  number : Text
  content : Text
  /-- The modem accepted every part. -/
  accepted : Bool

def PreparedSend.transmission (p : PreparedSend) (call : SendCall) : Transmission where
  requestId := p.requestId
  modemId := p.modemId
  recipient := p.recipient
  number := p.number
  content := p.content
  accepted := p.accepted call

/-- `send_method`, with the transmission it starts for a request id -/
def sendMethod (call : SendCall) (o : Outbox) : Outbox × SendReply × Option Transmission :=
  match prepareSend call with
  | .error reply => (o, reply, none)
  | .ok p =>
    if call.managed then
      if call.faults.insertRecord then (o, sendFailure, none)
      else match o.record? p.requestId with
        | some record =>
          if call.faults.selectRecord then (o, sendFailure, none)
          else (o, replaySend p record, none)
        | none =>
          let (o, reply) := transmitSend call p (o.insertRecord (p.record call.now))
          (o, reply, some (p.transmission call))
    else
      let (o, reply) := transmitSend call p o
      (o, reply, none)

/-! ## Histories -/

/-- What a managed call is about, where its arguments and the configuration say so. -/
structure SendTarget where
  requestId : Text
  modemId : ModemId
  recipient : Text
  number : Text
  content : Text

/-- The target of a managed call: the modem, the number the recipient resolves to, and the content.
-/
def SendCall.target? (call : SendCall) : Option SendTarget :=
  match call.managed, call.args.requestId, call.args.modem, call.args.recipient,
    call.args.content with
  | true, some requestId, some modem, some recipient, some content =>
    match loadConfig call.settings modem with
    | none => none
    | some (modemId, settings) =>
      (smsResolveNumber recipient (call.args.countryCode.getD settings.countryCode) 22).map
        fun number => { requestId, modemId, recipient, number, content }
  | _, _, _, _, _ => none

theorem managed_of_target {call : SendCall} {x : SendTarget} (hx : call.target? = some x) :
    call.managed = true := by
  unfold SendCall.target? at hx
  split at hx
  · assumption
  · cases hx

/-- The call passes the checks of `send_method`: the modem is in database mode and its old messages
are migrated, the id is valid, the contact belongs to the number, and the content can be encoded. -/
structure SendCall.WellFormed (call : SendCall) (x : SendTarget) : Prop where
  database : ∀ settings, call.settings = some settings → settings.direct = false
  requestId : validId x.requestId = true
  prepared : call.prepared = true
  contact : ∀ contact, call.args.conversationContact = some contact →
    ∃ normalized, smsNormalizeNumber contact 22 = some normalized ∧
      contactFits x.number normalized = true
  encodable : ∃ pdu pdus,
    pduEncodeUcs2Parts x.number x.content smsMaxParts call.reference = some (pdu :: pdus)

/-- The modem accepts every part of the message. -/
def SendCall.AllAccepted (call : SendCall) (x : SendTarget) : Prop :=
  ∀ pdus, pduEncodeUcs2Parts x.number x.content smsMaxParts call.reference = some pdus →
    ∀ i pdu, pdus[i]? = some pdu → (call.modem i pdu).accepted = true

/-- The transmission was for this request, modem, number and content. -/
def Transmission.IsFor (t : Transmission) (x : SendTarget) : Prop :=
  t.requestId = x.requestId ∧ t.modemId = x.modemId ∧ t.number = x.number ∧ t.content = x.content

instance (t : Transmission) (x : SendTarget) : Decidable (t.IsFor x) :=
  inferInstanceAs (Decidable (_ ∧ _ ∧ _ ∧ _))

/-- The daemon with the transmissions it has started under a request id. -/
structure SendHistory where
  outbox : Outbox
  runs : List Transmission

namespace SendHistory

/-- No request has been made yet; the other tables may have any contents. -/
def initial (tables : Tables) : SendHistory where
  outbox := ⟨tables, []⟩
  runs := []

def reply (k : SendHistory) (call : SendCall) : SendReply := (sendMethod call k.outbox).2.1

def step (k : SendHistory) (call : SendCall) : SendHistory where
  outbox := (sendMethod call k.outbox).1
  runs := k.runs ++ (sendMethod call k.outbox).2.2.toList

/-- At most one transmission was started for a request id. -/
def OneRun (k : SendHistory) : Prop := (k.runs.map (·.requestId)).Nodup

/-- A managed call is answered with success exactly when the modem accepted, now or earlier under
the same id, every part of the message for the modem, number and content of the call. -/
def Honest (k : SendHistory) (call : SendCall) : Prop :=
  call.managed = true →
    ((k.reply call).isSuccess = true ↔
      ∃ x, call.target? = some x ∧ ∃ t ∈ (k.step call).runs, t.IsFor x ∧ t.accepted = true)

/-- A call under the id of an accepted message, for the same modem and content, has the same number
exactly if it has the same recipient text and is not kept from the table; and no statement fails
behind a message that the modem has just accepted. -/
def Careful (k : SendHistory) (call : SendCall) : Prop :=
  ∀ x, call.target? = some x →
    (∀ t ∈ k.runs, t.requestId = x.requestId → t.modemId = x.modemId → t.content = x.content →
      t.accepted = true →
        (t.number = x.number ↔ t.recipient = x.recipient ∧ call.WellFormed x ∧
          call.faults.insertRecord = false ∧ call.faults.selectRecord = false)) ∧
    ((∀ t ∈ k.runs, t.requestId ≠ x.requestId) → call.WellFormed x →
      call.faults.insertRecord = false → call.AllAccepted x →
        call.faults.insertMessage = false ∧ call.faults.updateRecord = false)

end SendHistory

/-! ## What a call does -/

theorem loadConfig_settings {settings : Option ModemSettings} {name : Text} {modemId : ModemId}
    {found : ModemSettings} (h : loadConfig settings name = some (modemId, found)) :
    settings = some found := by
  unfold loadConfig at h
  split at h
  · cases settings with
    | none => cases h
    | some settings => cases h; rfl
  · cases h

/-- The transmission of all parts succeeds when the modem accepts each of them. -/
theorem transmit_eq_true_iff {modem : ℕ → List UInt8 → PartOutcome} {pdus : List (List UInt8)}
    {part : ℕ} {output : Option Text} :
    (transmit modem part pdus output).1 = true ↔
      ∀ i pdu, pdus[i]? = some pdu → (modem (part + i) pdu).accepted = true := by
  induction pdus generalizing part output with
  | nil => simp [transmit]
  | cons pdu pdus ih =>
    rw [transmit, ← Nat.and_forall_add_one]
    split
    · next hfirst => simp [hfirst, ih, Nat.add_assoc, Nat.add_comm 1]
    · next hfirst => simp [hfirst]

def PreparedSend.target (p : PreparedSend) : SendTarget where
  requestId := p.requestId
  modemId := p.modemId
  recipient := p.recipient
  number := p.number
  content := p.content

/-- The contact of a call that passes the check. -/
theorem contact_check {contact : Option Text} {number : Text} :
    ((contact.map (smsNormalizeNumber · 22)).any fun c => c.all (!contactFits number ·)) = false ↔
      ∀ text, contact = some text →
        ∃ normalized, smsNormalizeNumber text 22 = some normalized ∧
          contactFits number normalized = true := by
  cases contact with
  | none => simp
  | some text => cases h : smsNormalizeNumber text 22 <;> simp [h]

variable {call : SendCall} {x : SendTarget}

/-- `send_method` reaches its first statement exactly for a well-formed call. -/
theorem prepareSend_of_target (hx : call.target? = some x) :
    (call.WellFormed x ∧ ∃ p, prepareSend call = .ok p ∧ p.target = x ∧ p.direct = false ∧
        pduEncodeUcs2Parts x.number x.content smsMaxParts call.reference = some p.pdus) ∨
      (¬call.WellFormed x ∧ ∃ reply, prepareSend call = .error reply ∧ reply.isSuccess = false) := by
  unfold SendCall.target? at hx
  split at hx
  rotate_left
  · cases hx
  rename_i requestId modem recipient content hmanaged hid hmodem hrecipient hcontent
  split at hx
  · cases hx
  rename_i modemId settings hconfig
  obtain ⟨number, hnumber, rfl⟩ := Option.map_eq_some_iff.mp hx
  have hsettings := loadConfig_settings hconfig
  -- the checks of the method in their order, each with its own reply
  simp only [prepareSend, hmodem, hrecipient, hcontent, hconfig, hmanaged, hid, hnumber,
    Bool.true_and, Option.any_some, Option.getD_some]
  split
  · next hdirect =>
    refine .inr ⟨fun h => ?_, _, rfl, rfl⟩
    rw [h.database settings hsettings] at hdirect
    cases hdirect
  next hdirect =>
  split
  · next hvalid =>
    refine .inr ⟨fun h => ?_, _, rfl, rfl⟩
    rw [h.requestId] at hvalid
    cases hvalid
  next hvalid =>
  split
  · next hprepared =>
    refine .inr ⟨fun h => ?_, _, rfl, rfl⟩
    rw [h.prepared, Bool.not_true, Bool.and_false] at hprepared
    cases hprepared
  next hprepared =>
  split
  · next hcontact =>
    refine .inr ⟨fun h => ?_, _, rfl, rfl⟩
    rw [contact_check.mpr h.contact] at hcontact
    cases hcontact
  next hcontact =>
  split
  · next pdu pdus hpdus =>
    rw [Bool.not_eq_true] at hdirect
    refine .inl ⟨⟨?_, ?_, ?_, ?_, pdu, pdus, hpdus⟩, _, rfl, rfl, hdirect, hpdus⟩
    · rintro _ hsome
      rw [hsettings] at hsome
      cases hsome
      exact hdirect
    · simpa using hvalid
    · simpa [hdirect] using hprepared
    · exact contact_check.mp (Bool.eq_false_iff.mpr hcontact)
  · next hpdus =>
    refine .inr ⟨fun h => ?_, _, rfl, rfl⟩
    obtain ⟨pdu, pdus, hsome⟩ := h.encodable
    exact hpdus pdu pdus hsome

/-- A managed call without a target is refused by the checks. -/
theorem prepareSend_of_no_target (hmanaged : call.managed = true) (hx : call.target? = none) :
    ∃ reply, prepareSend call = .error reply ∧ reply.isSuccess = false := by
  unfold prepareSend
  split
  rotate_left
  · exact ⟨_, rfl, rfl⟩
  next modem recipient content hmodem hrecipient hcontent =>
  split
  · exact ⟨_, rfl, rfl⟩
  next modemId settings hconfig =>
  split
  · exact ⟨_, rfl, rfl⟩
  split
  · exact ⟨_, rfl, rfl⟩
  next hvalid =>
  split
  · exact ⟨_, rfl, rfl⟩
  split
  · exact ⟨_, rfl, rfl⟩
  next number hnumber =>
  -- all parts of a target are there
  exfalso
  cases hid : call.args.requestId with
  | none =>
    rw [hmanaged, hid] at hvalid
    exact hvalid rfl
  | some requestId =>
    simp [SendCall.target?, hmanaged, hid, hmodem, hrecipient, hcontent, hconfig, hnumber] at hx

/-- A message is recorded as sent, and answered so, exactly when the modem accepts it and no later
statement fails. -/
def PreparedSend.Succeeds (p : PreparedSend) (call : SendCall) : Prop :=
  p.accepted call = true ∧ call.faults.insertMessage = false ∧ call.faults.updateRecord = false

/-- The record of a request is one about its transmission. -/
structure ManagedSend.IsAbout (r : ManagedSend) (t : Transmission) : Prop where
  requestId : r.requestId = t.requestId
  modemId : r.modemId = t.modemId
  recipient : r.recipient = t.recipient
  content : r.content = t.content

variable {o : Outbox}

/-- An update of the record that was just inserted changes no other. -/
theorem Outbox.updateRecord_insertRecord (record : ManagedSend)
    (hnew : ∀ r ∈ o.records, r.requestId ≠ record.requestId) (f : ManagedSend → ManagedSend) :
    ((o.insertRecord record).updateRecord record.requestId f).records = o.records ++ [f record] := by
  simp only [updateRecord, insertRecord, map_append, map_cons, map_nil, if_pos]
  congr 1
  conv_rhs => rw [← map_id o.records]
  refine map_congr_left fun r hr => ?_
  rw [if_neg (hnew r hr), id]

/-- What a first call under a request id leaves in the table and answers. -/
def PreparedSend.Leaves (p : PreparedSend) (call : SendCall) (o : Outbox)
    (result : Outbox × SendReply) : Prop :=
  ∃ record : ManagedSend, result.1.records = o.records ++ [record] ∧
    record.IsAbout (p.transmission call) ∧ (record.state = .success ↔ p.Succeeds call) ∧
    (result.2.isSuccess = true ↔ p.Succeeds call)

/-- A new request leaves a record that says whether it has succeeded. -/
theorem transmitSend_new {p : PreparedSend} (hmanaged : call.managed = true)
    (hdirect : p.direct = false) (hnew : ∀ r ∈ o.records, r.requestId ≠ p.requestId) :
    p.Leaves call o (transmitSend call p (o.insertRecord (p.record call.now))) := by
  have hupdate := Outbox.updateRecord_insertRecord (p.record call.now) hnew
  -- both faults end in the same way, with a record that has failed or is still pending
  have hfail : ¬p.Succeeds call → ∀ tables,
      p.Leaves call o (failSend call p { o.insertRecord (p.record call.now) with tables }) := by
    intro hnot tables
    unfold failSend
    split
    · exact ⟨_, hupdate _, ⟨rfl, rfl, rfl, rfl⟩, iff_of_false nofun hnot, iff_of_false nofun hnot⟩
    · exact ⟨_, rfl, ⟨rfl, rfl, rfl, rfl⟩, iff_of_false nofun hnot, iff_of_false nofun hnot⟩
  unfold transmitSend
  simp only [hmanaged, hdirect, Bool.not_false, Bool.true_and]
  split
  · next hfault =>
    exact hfail (fun h => by simp [h.2.1] at hfault) _
  next hmessage =>
  split
  · next hfault =>
    exact hfail (fun h => by simp [h.2.2] at hfault) _
  next hrecord =>
  refine ⟨_, hupdate _, ⟨rfl, rfl, rfl, rfl⟩, ?_, ?_⟩
  · cases h : (transmit call.modem 0 p.pdus none).1 <;>
      simp [PreparedSend.Succeeds, PreparedSend.accepted, h, hmessage, hrecord]
  · simp [SendReply.isSuccess, PreparedSend.Succeeds, PreparedSend.accepted, hmessage, hrecord]

theorem transmitSend_records_of_plain (p : PreparedSend) (o : Outbox)
    (hplain : call.managed = false) : (transmitSend call p o).1.records = o.records := by
  simp only [transmitSend, failSend, hplain, Bool.false_and, Bool.false_eq_true, if_false]
  split
  · rfl
  · split <;> rfl

/-- A call under an id that is in the table. -/
theorem sendMethod_known {r : ManagedSend} (hx : call.target? = some x)
    (hr : o.record? x.requestId = some r) :
    (sendMethod call o).1 = o ∧ (sendMethod call o).2.2 = none ∧
      ((sendMethod call o).2.1.isSuccess = true ↔
        call.WellFormed x ∧ call.faults.insertRecord = false ∧ call.faults.selectRecord = false ∧
          r.modemId = x.modemId ∧ r.recipient = x.recipient ∧ r.content = x.content ∧
          r.state = .success) := by
  have hmanaged := managed_of_target hx
  unfold sendMethod
  obtain ⟨hwell, p, hp, rfl, -, -⟩ | ⟨hill, reply, hreply, hfailed⟩ := prepareSend_of_target hx
  · simp only [hp, hmanaged, if_true]
    split
    · next hfault =>
      exact ⟨rfl, rfl, iff_of_false nofun fun h => by simp [h.2.1] at hfault⟩
    next hinsert =>
    have hfind : o.record? p.requestId = some r := hr
    simp only [hfind]
    split
    · next hfault =>
      exact ⟨rfl, rfl, iff_of_false nofun fun h => by simp [h.2.2.1] at hfault⟩
    next hselect =>
    refine ⟨rfl, rfl, ?_⟩
    rw [Bool.not_eq_true] at hinsert hselect
    -- the record is replayed: a conflict, or the answer of the first time
    unfold replaySend
    split
    · next hconflict =>
      refine iff_of_false nofun fun ⟨_, _, _, hmodem, hrecipient, hcontent, _⟩ => ?_
      rcases hconflict with h | h | h
      · exact h hmodem
      · exact h hrecipient
      · exact h hcontent
    · next hsame =>
      simp only [not_or, not_not] at hsame
      simp only [SendReply.isSuccess, decide_eq_true_eq]
      exact ⟨fun h => ⟨hwell, hinsert, hselect, hsame.1, hsame.2.1, hsame.2.2, h⟩,
        fun h => h.2.2.2.2.2.2⟩
  · rw [hreply]
    exact ⟨rfl, rfl, iff_of_false (by simp [hfailed]) fun h => hill h.1⟩

/-- A call under an id that is not in the table starts a transmission unless it is refused. -/
theorem sendMethod_new (hx : call.target? = some x) (hr : o.record? x.requestId = none) :
    (call.WellFormed x ∧ call.faults.insertRecord = false ∧ ∃ (record : ManagedSend) (t : Transmission),
        (sendMethod call o).1.records = o.records ++ [record] ∧
        (sendMethod call o).2.2 = some t ∧ record.IsAbout t ∧ t.IsFor x ∧
        (t.accepted = true ↔ call.AllAccepted x) ∧
        (record.state = .success ↔ t.accepted = true ∧ call.faults.insertMessage = false ∧
          call.faults.updateRecord = false) ∧
        ((sendMethod call o).2.1.isSuccess = true ↔ record.state = .success)) ∨
      (¬(call.WellFormed x ∧ call.faults.insertRecord = false) ∧ (sendMethod call o).1 = o ∧
        (sendMethod call o).2.2 = none ∧ (sendMethod call o).2.1.isSuccess = false) := by
  have hmanaged := managed_of_target hx
  unfold sendMethod
  obtain ⟨hwell, p, hp, rfl, hdirect, hpdus⟩ | ⟨hill, reply, hreply, hfailed⟩ :=
    prepareSend_of_target hx
  · simp only [hp, hmanaged, if_true]
    split
    · next hfault =>
      exact .inr ⟨fun h => by simp [h.2] at hfault, rfl, rfl, rfl⟩
    next hinsert =>
    have hfind : o.record? p.requestId = none := hr
    -- the record is inserted before anything is sent
    have hnew : ∀ r ∈ o.records, r.requestId ≠ p.requestId := by
      simpa [Outbox.record?] using hfind
    simp only [hfind]
    obtain ⟨record, hrecords, habout, hstate, hreply⟩ := transmitSend_new hmanaged hdirect hnew
    refine .inl ⟨hwell, Bool.eq_false_iff.mpr hinsert, record, p.transmission call, hrecords, rfl,
      habout, ⟨rfl, rfl, rfl, rfl⟩, ?_, hstate, hreply.trans hstate.symm⟩
    show (transmit call.modem 0 p.pdus none).1 = true ↔ _
    simp [transmit_eq_true_iff, SendCall.AllAccepted, hpdus]
  · rw [hreply]
    exact .inr ⟨fun h => hill h.1, rfl, rfl, hfailed⟩

/-- A call without a target, such as a plain `send`, leaves the table as it is. -/
theorem sendMethod_of_no_target (o : Outbox) (hx : call.target? = none) :
    (sendMethod call o).1.records = o.records ∧ (sendMethod call o).2.2 = none ∧
      (call.managed = true → (sendMethod call o).2.1.isSuccess = false) := by
  cases hmanaged : call.managed with
  | true =>
    obtain ⟨reply, hreply, hfailed⟩ := prepareSend_of_no_target hmanaged hx
    rw [sendMethod, hreply]
    exact ⟨rfl, rfl, fun _ => hfailed⟩
  -- an unmanaged send keeps no record
  | false =>
    unfold sendMethod
    cases prepareSend call with
    | error reply => exact ⟨rfl, rfl, nofun⟩
    | ok p =>
      simp only [hmanaged, Bool.false_eq_true, if_false]
      exact ⟨transmitSend_records_of_plain p o hmanaged, trivial, nofun⟩

/-! ## What the table says -/

namespace SendHistory

/-- Each record is about a transmission, each in its turn, and a relation holds between the two. -/
structure Matched (R : ManagedSend → Transmission → Prop) (k : SendHistory) : Prop where
  pairs : List.Forall₂ (fun r t => r.IsAbout t ∧ R r t) k.outbox.records k.runs
  oneRun : k.OneRun

/-- The record tells whether the transmission was accepted. -/
def Told (r : ManagedSend) (t : Transmission) : Prop := r.state = .success ↔ t.accepted = true

variable {R : ManagedSend → Transmission → Prop} {k : SendHistory} {call : SendCall}

theorem matched_initial (tables : Tables) : (initial tables).Matched R :=
  ⟨.nil, nodup_nil⟩

/-- An id is in the table exactly if a transmission was started under it. -/
theorem Matched.find (h : k.Matched R) (requestId : Text) :
    (∃ r, k.outbox.record? requestId = some r ∧
        ∃ t ∈ k.runs, r.IsAbout t ∧ R r t ∧ t.requestId = requestId) ∨
      (k.outbox.record? requestId = none ∧ ∀ t ∈ k.runs, t.requestId ≠ requestId) := by
  unfold Outbox.record?
  have hpairs := h.pairs
  generalize k.outbox.records = records, k.runs = runs at hpairs ⊢
  -- records and runs stand side by side
  induction hpairs with
  | nil => exact .inr ⟨rfl, nofun⟩
  | @cons r t records runs hrt _ ih =>
    by_cases hid : r.requestId = requestId
    · refine .inl ⟨r, find?_cons_of_pos (by simpa using hid), t, mem_cons_self, hrt.1, hrt.2, ?_⟩
      rw [← hrt.1.requestId, hid]
    · rw [find?_cons_of_neg (by simpa using hid)]
      obtain ⟨r', hr', t', ht', hrest⟩ | ⟨hnone, hothers⟩ := ih
      · exact .inl ⟨r', hr', t', mem_cons_of_mem _ ht', hrest⟩
      · refine .inr ⟨hnone, forall_mem_cons.mpr ⟨?_, hothers⟩⟩
        rwa [← hrt.1.requestId]

/-- There is one transmission under an id. -/
theorem Matched.run_unique (h : k.Matched R) {t t' : Transmission} (ht : t ∈ k.runs)
    (ht' : t' ∈ k.runs) (hid : t.requestId = t'.requestId) : t = t' :=
  inj_on_of_nodup_map h.oneRun ht ht' hid

/-- A call keeps the records in step with the transmissions if the relation holds for the pair that
it adds. -/
theorem Matched.step (h : k.Matched R)
    (hnew : ∀ x record t, call.target? = some x → (∀ t ∈ k.runs, t.requestId ≠ x.requestId) →
      call.WellFormed x → call.faults.insertRecord = false →
      (t.accepted = true ↔ call.AllAccepted x) →
      (record.state = .success ↔ t.accepted = true ∧ call.faults.insertMessage = false ∧
        call.faults.updateRecord = false) → R record t) :
    (k.step call).Matched R := by
  -- a request that is known or refused sends nothing
  have hsame : (sendMethod call k.outbox).1.records = k.outbox.records →
      (sendMethod call k.outbox).2.2 = none → (k.step call).Matched R := by
    intro hrecords hnone
    have hruns : (k.step call).runs = k.runs := by simp [SendHistory.step, hnone]
    constructor
    · rw [hruns]
      exact hrecords ▸ h.pairs
    · rw [OneRun, hruns]
      exact h.oneRun
  cases hx : call.target? with
  | none =>
    obtain ⟨hrecords, hnone, -⟩ := sendMethod_of_no_target k.outbox hx
    exact hsame hrecords hnone
  | some x =>
    obtain ⟨r, hr, -⟩ | ⟨hnone, hothers⟩ := h.find x.requestId
    · obtain ⟨houtbox, hrun, -⟩ := sendMethod_known hx hr
      exact hsame (by rw [houtbox]) hrun
    obtain ⟨hwell, hinsert, record, t, hrecords, hrun, habout, hfor, haccepted, hstate, -⟩ |
      ⟨-, houtbox, hrun, -⟩ := sendMethod_new hx hnone
    · have hruns : (k.step call).runs = k.runs ++ [t] := by simp [SendHistory.step, hrun]
      constructor
      · rw [hruns, show (k.step call).outbox.records = k.outbox.records ++ [record] from hrecords]
        refine rel_append h.pairs (.cons ⟨habout, ?_⟩ .nil)
        exact hnew x record t hx hothers hwell hinsert haccepted hstate
      · rw [OneRun, hruns, map_append]
        refine Nodup.append h.oneRun (nodup_singleton _) ?_
        rw [map_singleton, disjoint_singleton, hfor.1]
        intro hmem
        obtain ⟨t', ht', hid⟩ := mem_map.mp hmem
        exact hothers t' ht' hid
    · exact hsame (by rw [houtbox]) hrun

/-- A careful call keeps the records truthful. -/
theorem Matched.step_told (h : k.Matched Told) (hcareful : k.Careful call) :
    (k.step call).Matched Told := by
  refine h.step fun x record t hx hothers hwell hinsert haccepted hstate => ?_
  refine hstate.trans ⟨fun h => h.1, fun h => ⟨h, ?_⟩⟩
  exact (hcareful x hx).2 hothers hwell hinsert (haccepted.mp h)

/-! ## Honest answers -/

theorem honest_iff_of_target (hx : call.target? = some x) :
    k.Honest call ↔ ((k.reply call).isSuccess = true ↔
      ∃ t ∈ (k.step call).runs, t.IsFor x ∧ t.accepted = true) := by
  simp [Honest, managed_of_target hx, hx]

/-- Under a known id the call has to agree with the one transmission. -/
theorem Matched.honest_iff_of_known (h : k.Matched Told) (hx : call.target? = some x)
    {r : ManagedSend} (hr : k.outbox.record? x.requestId = some r) {t : Transmission}
    (ht : t ∈ k.runs) (habout : r.IsAbout t) (htold : Told r t) (hid : t.requestId = x.requestId) :
    k.Honest call ↔ k.Careful call := by
  obtain ⟨-, hrun, hreply⟩ := sendMethod_known hx hr
  have hruns : (k.step call).runs = k.runs := by simp [SendHistory.step, hrun]
  -- there is one run for this identifier, so it is the only one to look at
  have hexists : (∃ t ∈ (k.step call).runs, t.IsFor x ∧ t.accepted = true) ↔
      t.modemId = x.modemId ∧ t.number = x.number ∧ t.content = x.content ∧ t.accepted = true := by
    rw [hruns]
    constructor
    · rintro ⟨t', ht', hfor, haccepted⟩
      obtain rfl := h.run_unique ht' ht (hfor.1.trans hid.symm)
      exact ⟨hfor.2.1, hfor.2.2.1, hfor.2.2.2, haccepted⟩
    · rintro ⟨hmodem, hnumber, hcontent, haccepted⟩
      exact ⟨t, ht, ⟨hid, hmodem, hnumber, hcontent⟩, haccepted⟩
  have hcareful : k.Careful call ↔ (t.modemId = x.modemId → t.content = x.content →
      t.accepted = true → (t.number = x.number ↔ t.recipient = x.recipient ∧ call.WellFormed x ∧
        call.faults.insertRecord = false ∧ call.faults.selectRecord = false)) := by
    constructor
    · intro hcareful
      exact (hcareful x hx).1 t ht hid
    · rintro hsame x' hx'
      obtain rfl : x = x' := by rwa [hx, Option.some_inj] at hx'
      refine ⟨fun t' ht' hid' => ?_, fun hothers => absurd hid (hothers t ht)⟩
      obtain rfl := h.run_unique ht' ht (hid'.trans hid.symm)
      exact hsame
  rw [honest_iff_of_target hx, hexists, hcareful, reply, hreply, habout.modemId, habout.recipient,
    habout.content, show r.state = .success ↔ t.accepted = true from htold]
  constructor
  · intro h hmodem hcontent haccepted
    constructor
    · intro hnumber
      obtain ⟨hwell, hinsert, hselect, -, hrecipient, -⟩ :=
        h.mpr ⟨hmodem, hnumber, hcontent, haccepted⟩
      exact ⟨hrecipient, hwell, hinsert, hselect⟩
    · rintro ⟨hrecipient, hwell, hinsert, hselect⟩
      exact (h.mp ⟨hwell, hinsert, hselect, hmodem, hrecipient, hcontent, haccepted⟩).2.1
  · intro h
    constructor
    · rintro ⟨hwell, hinsert, hselect, hmodem, hrecipient, hcontent, haccepted⟩
      have hnumber := (h hmodem hcontent haccepted).mpr ⟨hrecipient, hwell, hinsert, hselect⟩
      exact ⟨hmodem, hnumber, hcontent, haccepted⟩
    · rintro ⟨hmodem, hnumber, hcontent, haccepted⟩
      obtain ⟨hrecipient, hwell, hinsert, hselect⟩ :=
        (h hmodem hcontent haccepted).mp hnumber
      exact ⟨hwell, hinsert, hselect, hmodem, hrecipient, hcontent, haccepted⟩

/-- Under a new id no statement may fail behind an accepted message. -/
theorem honest_iff_of_new (hx : call.target? = some x) (hnone : k.outbox.record? x.requestId = none)
    (hothers : ∀ t ∈ k.runs, t.requestId ≠ x.requestId) : k.Honest call ↔ k.Careful call := by
  -- of the two conditions only that for a new request matters
  have hcareful : k.Careful call ↔ (call.WellFormed x → call.faults.insertRecord = false →
      call.AllAccepted x →
        call.faults.insertMessage = false ∧ call.faults.updateRecord = false) := by
    constructor
    · intro hcareful
      exact (hcareful x hx).2 hothers
    · rintro hnew x' hx'
      obtain rfl : x = x' := by rwa [hx, Option.some_inj] at hx'
      exact ⟨fun t ht hid => absurd hid (hothers t ht), fun _ => hnew⟩
  rw [honest_iff_of_target hx, hcareful, reply]
  obtain ⟨hwell, hinsert, record, t, -, hrun, -, hfor, haccepted, hstate, hreply⟩ |
    ⟨hrefused, -, hrun, hreply⟩ := sendMethod_new hx hnone
  · have hexists : (∃ t ∈ (k.step call).runs, t.IsFor x ∧ t.accepted = true) ↔
        t.accepted = true := by
      simp only [SendHistory.step, hrun, Option.toList_some, mem_append, mem_singleton]
      constructor
      · rintro ⟨t', ht' | rfl, hfor', haccepted'⟩
        · exact absurd hfor'.1 (hothers t' ht')
        · exact haccepted'
      · intro haccepted'
        exact ⟨t, .inr rfl, hfor, haccepted'⟩
    rw [hreply, hstate, hexists, ← haccepted]
    constructor
    · intro h _ _ haccepted'
      exact (h.mpr haccepted').2
    · intro h
      exact ⟨fun h' => h'.1, fun haccepted' => ⟨haccepted', h hwell hinsert haccepted'⟩⟩
  · have hexists : ¬∃ t ∈ (k.step call).runs, t.IsFor x ∧ t.accepted = true := by
      simp only [SendHistory.step, hrun, Option.toList_none, append_nil]
      rintro ⟨t, ht, hfor, -⟩
      exact hothers t ht hfor.1
    refine iff_of_true (iff_of_false ?_ hexists) fun hwell hinsert => ?_
    · rw [hreply]
      nofun
    · exact absurd ⟨hwell, hinsert⟩ hrefused

/-- As long as the records are truthful, a call is answered honestly exactly if it is careful. -/
theorem Matched.honest_iff (h : k.Matched Told) : k.Honest call ↔ k.Careful call := by
  cases hx : call.target? with
  | none =>
    obtain ⟨-, -, hfailed⟩ := sendMethod_of_no_target k.outbox hx
    simp +contextual [Honest, Careful, hx, reply, hfailed]
  | some x =>
    obtain ⟨r, hr, t, ht, habout, htold, hid⟩ | ⟨hnone, hothers⟩ := h.find x.requestId
    · exact h.honest_iff_of_known hx hr ht habout htold hid
    · exact honest_iff_of_new hx hnone hothers

/-- Whatever calls are made and whatever fails, at most one transmission is started under a request
id; and all calls are answered honestly exactly when they are careful. -/
theorem managedSend_iff (tables : Tables) (calls : List SendCall) :
    Throughout step OneRun (initial tables) calls ∧
      (Along step Honest (initial tables) calls ↔ Along step Careful (initial tables) calls) := by
  constructor
  · have hmatched : Throughout step (Matched fun _ _ => True) (initial tables) calls :=
      throughout_of_step (matched_initial tables) fun k call _ h =>
        h.step fun _ _ _ _ _ _ _ _ _ => trivial
    exact hmatched.imp fun k h => h.oneRun
  · exact (along_iff_along_of_step (matched_initial tables) (fun k call h => h.honest_iff.symm)
      (fun k call hcareful h => h.step_told hcareful) calls).symm

/-! ## Two histories with wrong answers -/

/-- A request to send `Hi` to `1711234567` with a country code, where the modem accepts everything.
-/
def greeting (countryCode : Text) (faults : SendFaults) : SendCall where
  managed := true
  args :=
    { modem := some (ascii "m1")
      recipient := some (ascii "1711234567")
      content := some (ascii "Hi")
      requestId := some (ascii "r1")
      countryCode := some countryCode }
  settings := some ⟨false, []⟩
  prepared := true
  reference := 1
  now := 0
  faults := faults
  modem := fun _ _ => ⟨true, []⟩

/-- After the message to `+49 1711234567` was accepted, the request with the country code `1` is
answered with success, although nothing was sent to `+1 1711234567`.  And if the accepted message
cannot be written to `messages`, the request is answered with an error. -/
theorem strayAnswers_not_honest :
    ¬Along step Honest (initial Database.empty.data)
        [greeting (ascii "49") {}, greeting (ascii "1") {}] ∧
      ¬Along step Honest (initial Database.empty.data)
        [greeting (ascii "49") { insertMessage := true }] := by
  constructor
  · rintro ⟨-, hreplay, -⟩
    -- the country code was changed, so the number is another one than that of the run
    have hnone : ¬∃ x ∈ (greeting (ascii "1") {}).target?,
        ∃ t ∈ (run step (initial Database.empty.data)
          [greeting (ascii "49") {}, greeting (ascii "1") {}]).runs,
        t.IsFor x ∧ t.accepted = true := by decide +kernel
    exact hnone ((hreplay rfl).mp (by decide +kernel))
  · rintro ⟨hlost, -⟩
    -- sent and accepted, but the message could not be stored
    have hsome : ∃ x ∈ (greeting (ascii "49") { insertMessage := true }).target?,
        ∃ t ∈ ((initial Database.empty.data).step
          (greeting (ascii "49") { insertMessage := true })).runs,
        t.IsFor x ∧ t.accepted = true := by decide +kernel
    exact absurd ((hlost rfl).mpr hsome) (by decide +kernel)

end SendHistory

end QModem.Smsd
