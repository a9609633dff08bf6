import QModem.Smsd.Receive

/-!
# Forwarding Messages

`delivery_claim_method` and `delivery_complete_method` of `qmodem_smsd/src/main.c`.  A worker claims
a delivery, forwards the message it is handed, and reports the outcome under the key of the
delivery.
-/

namespace QModem.Smsd

open Lib Transaction

/-- What a worker is handed. -/
structure Claim where
  deliveryId : ℕ
  messageId : ℕ
  modemId : ModemId
  sender : Option Text
  timestamp : ℤ
  content : Text
  complete : Bool
  revision : ℕ
  deriving DecidableEq

/-- The clock values of the three statements of a claim. -/
structure ClaimClock where
  reset : ℤ
  select : ℤ
  update : ℤ

namespace Tables

variable (t : Tables)

def isExpired (now : ℤ) (d : Entry Delivery) : Bool :=
  d.row.state = .claimed && d.row.claimedAt.any fun claimedAt => claimedAt < now - 300

/-- Claims older than 300 seconds are given up. -/
def resetExpired (now : ℤ) : Tables :=
  { t with deliveries := t.deliveries.updateWhere (isExpired now) fun d =>
      { d with state := .pending, claimedAt := none, availableAt := now } }

def messageById (messageId : ℕ) : Option (Entry Message) := t.messages.find? (·.id = messageId)

/-- What the row of `deliveries d JOIN messages m` says. -/
def claimOf (d : Entry Delivery) : Option Claim :=
  (t.messageById d.row.messageId).map fun m => {
    deliveryId := d.id
    messageId := m.id
    modemId := m.row.modemId
    sender := m.row.sender
    timestamp := m.row.timestamp
    content := m.row.content
    complete := m.row.complete
    revision := m.row.revision }

/-- `ORDER BY d.id LIMIT 1`: rows are stored in key order. -/
def nextDelivery (now : ℤ) : Option Claim :=
  (t.deliveries.select fun d => d.row.state = .pending && d.row.availableAt ≤ now).findSome? t.claimOf

def markClaimed (deliveryId : ℕ) (now : ℤ) : Tables :=
  { t with deliveries := t.deliveries.updateWhere (·.id = deliveryId) fun d =>
      { d with state := .claimed, attempts := d.attempts + 1, claimedAt := some now } }

/-- Seconds until a failed delivery is tried again. -/
def retryDelay (attempts : ℕ) : ℤ := min 3600 (30 * (1 <<< min attempts 7 : ℕ))

/-- The outcome of a delivery. -/
def finished (success : Bool) (error : Option Text) (now : ℤ) (d : Delivery) : Delivery :=
  if success then { d with state := .done, completedAt := some now, lastError := error }
  else
    { d with
      state := .pending
      completedAt := none
      availableAt := now + retryDelay d.attempts
      lastError := error }

def finishDelivery (deliveryId : ℕ) (success : Bool) (error : Option Text) (now : ℤ) : Tables :=
  { t with
    deliveries := t.deliveries.updateWhere
      (fun d => d.id = deliveryId && d.row.state = .claimed) (finished success error now) }

end Tables

/-- `delivery_claim_method`; `none` is the answer `empty`. -/
def claimDelivery (clock : ClaimClock) : Tx (Option Claim) := do
  exec fun t => t.resetExpired clock.reset
  match ← query fun t => t.nextDelivery clock.select with
  | none => return none
  | some c =>
    exec fun t => t.markClaimed c.deliveryId clock.update
    return some c

/-- `delivery_complete_method`, which answers `success` whenever its statement runs. -/
def completeDelivery (deliveryId : ℕ) (success : Bool) (error : Option Text) (now : ℤ) : Tx Unit :=
  if deliveryId = 0 then rollback else exec fun t => t.finishDelivery deliveryId success error now

end QModem.Smsd
