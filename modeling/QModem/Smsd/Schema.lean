import QModem.Lib.Table
import QModem.Lib.Transaction

/-!
# The SMS Database

The tables that `schema_sql` of `qmodem_smsd/src/sms_db.c` creates, as far as receiving and
forwarding messages uses them, and the constraints SQLite enforces on them with `foreign_keys=ON`.

Text is the bytes of a C string.  Times are seconds and may be any integer, since the clock of a
router can jump.  `Database` values always meet the constraints: a statement that would break one
fails (see `Transaction.exec`).
-/

namespace QModem.Smsd

open Lib

abbrev Text := List UInt8

/-! ## Rows -/

/-- `valid_id` of `main.c`. -/
def validId (value : Text) : Bool :=
  value ≠ [] && value.length < 64 && value.all fun c =>
    (0x61 ≤ c && c ≤ 0x7a) || (0x41 ≤ c && c ≤ 0x5a) || (0x30 ≤ c && c ≤ 0x39) ||
      c = 0x5f || c = 0x2d

theorem validId_a : validId [0x61] = true := by decide

/-- The name of a configured modem: `load_config` refuses any other. -/
structure ModemId where
  name : Text
  valid : validId name = true
  deriving DecidableEq

/-- `modems`, without the columns no statement of the daemon reads back. -/
structure Modem where
  modemId : ModemId
  lastSyncAt : Option ℤ := none
  lastEventEpoch : Option ℤ := none
  lastEventSequence : Option ℤ := none
  deriving DecidableEq

/-- `sync_runs` -/
structure SyncRun where
  modemId : ModemId
  trigger : Text
  startedAt : ℤ
  finishedAt : Option ℤ
  imported : ℤ
  error : Option Text
  deriving DecidableEq

/-- `multipart_groups` -/
structure Group where
  modemId : ModemId
  sender : Text
  reference : ℤ
  totalParts : ℤ
  firstSeen : ℤ
  lastSeen : ℤ
  deriving DecidableEq

/-- `source_messages`: what has been read from the storage of a modem. -/
structure Source where
  modemId : ModemId
  storage : Text
  sourceIndex : ℤ
  pdu : Text
  importedAt : ℤ
  committed : Bool := false
  deletedAt : Option ℤ := none
  deriving DecidableEq

/-- `segments` -/
structure Segment where
  groupId : ℕ
  sourceId : ℕ
  partNumber : ℤ
  timestamp : ℤ
  content : Text
  deriving DecidableEq

inductive Direction where
  | received
  | sent
  deriving DecidableEq

/-- `messages` -/
structure Message where
  modemId : ModemId
  direction : Direction
  sender : Option Text := none
  recipient : Option Text := none
  timestamp : ℤ
  content : Text
  groupId : Option ℕ := none
  complete : Bool
  revision : ℕ := 1
  isRead : Bool := false
  sendSuccess : Option Bool := none
  createdAt : ℤ
  updatedAt : ℤ
  conversationContact : Option Text := none
  deriving DecidableEq

inductive DeliveryState where
  | pending
  | claimed
  | done
  deriving DecidableEq

/-- `deliveries` -/
structure Delivery where
  messageId : ℕ
  revision : ℕ
  state : DeliveryState := .pending
  attempts : ℕ := 0
  availableAt : ℤ
  claimedAt : Option ℤ := none
  completedAt : Option ℤ := none
  lastError : Option Text := none
  deriving DecidableEq

/-! ## Tables and constraints -/

structure Tables where
  modems : Table Modem
  syncRuns : Table SyncRun
  groups : Table Group
  sources : Table Source
  segments : Table Segment
  messages : Table Message
  deliveries : Table Delivery
  deriving DecidableEq

/-- The fingerprint of a message in the storage of a modem. -/
def Source.fingerprint (s : Source) : ModemId × Text × ℤ × Text :=
  (s.modemId, s.storage, s.sourceIndex, s.pdu)

/-- The `UNIQUE` and `REFERENCES` clauses of the schema. -/
@[mk_iff] structure Constraints (t : Tables) : Prop where
  modems_id : Unique (fun m => some m.modemId) t.modems
  sources_fingerprint : Unique (fun s => some s.fingerprint) t.sources
  segments_part : Unique (fun s => some (s.groupId, s.partNumber)) t.segments
  segments_group : References (fun s => some s.groupId) t.segments t.groups
  segments_source : References (fun s => some s.sourceId) t.segments t.sources
  messages_group_unique : Unique Message.groupId t.messages
  messages_group : References Message.groupId t.messages t.groups
  deliveries_revision : Unique (fun d => some (d.messageId, d.revision)) t.deliveries
  deliveries_message : References (fun d => some d.messageId) t.deliveries t.messages

instance : DecidablePred Constraints := fun t => decidable_of_iff' _ (constraints_iff t)

/-- A database: tables that meet the constraints. -/
abbrev Database := Store Constraints

/-- A sequence of statements between `BEGIN IMMEDIATE` and `COMMIT`. -/
abbrev Tx := Transaction Constraints

def Database.empty : Database where
  data := ⟨.empty, .empty, .empty, .empty, .empty, .empty, .empty⟩
  valid := by decide

end QModem.Smsd
