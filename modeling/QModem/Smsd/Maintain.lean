import QModem.Smsd.Receive

/-!
# Keeping the Database Small

The other write operations of `qmodem_smsd/src/sms_db.c`, and the statements with which `main.c` and
`legacy_migrate.c` add or mark single messages.

`time(NULL)` and SQLite's `'now'` are read anew by every statement, so an operation takes one clock
value for each statement that reads the clock.
-/

namespace QModem.Smsd

open Lib Transaction

/-! ## Statements -/

namespace Tables

variable (t : Tables)

def sourceInUse (sourceId : ℕ) : Bool := t.segments.rows.any (·.row.sourceId = sourceId)

def hasMessage (groupId : ℕ) : Bool := t.messages.rows.any (·.row.groupId = some groupId)

/-- Sources a scan has not seen again. -/
def forgetUnseen (modemId : ModemId) (storage : Text) (startedAt : ℤ) : Tables :=
  { t with sources := t.sources.deleteWhere fun s =>
      s.row.modemId = modemId && s.row.storage = storage && s.row.committed &&
        s.row.importedAt < startedAt && !t.sourceInUse s.id }

/-- `DELETE FROM messages`; the deliveries of a deleted message go with it (`ON DELETE CASCADE`). -/
def deleteMessages (p : Entry Message → Bool) : Tables :=
  { t with
    messages := t.messages.deleteWhere p
    deliveries := t.deliveries.deleteWhere fun d =>
      t.messages.rows.any fun m => m.id = d.row.messageId && p m }

/-- `ORDER BY timestamp DESC,id DESC` -/
def latestFirst (a b : Entry Message) : Prop :=
  b.row.timestamp < a.row.timestamp ∨ (a.row.timestamp = b.row.timestamp ∧ b.id ≤ a.id)

instance : DecidableRel latestFirst := fun a b =>
  inferInstanceAs (Decidable (b.row.timestamp < a.row.timestamp ∨ _))

/-- The messages retention keeps. -/
def retained (modemId : ModemId) (direction : Direction) (limit : ℤ) : List ℕ :=
  (((t.messages.select fun m => m.row.modemId = modemId && m.row.direction = direction).insertionSort
    latestFirst).take limit.toNat).map (·.id)

/-- `prune_direction` -/
def pruneDirection (modemId : ModemId) (direction : Direction) (limit : ℤ) : Tables :=
  t.deleteMessages fun m =>
    m.row.modemId = modemId && m.row.direction = direction &&
      !(t.retained modemId direction limit).contains m.id

/-- A group of any modem without a message and without a recent part. -/
def isOrphan (orphanBefore : ℤ) (g : Entry Group) : Bool :=
  !t.hasMessage g.id && g.row.lastSeen < orphanBefore

def deleteOrphanSegments (orphanBefore : ℤ) : Tables :=
  { t with segments := t.segments.deleteWhere fun s =>
      t.groups.rows.any fun g => g.id = s.row.groupId && t.isOrphan orphanBefore g }

def deleteOrphanGroups (orphanBefore : ℤ) : Tables :=
  { t with groups := t.groups.deleteWhere (t.isOrphan orphanBefore) }

/-- A source of any modem that was deleted from its storage more than a week ago. -/
def isStale (now : ℤ) (s : Entry Source) : Bool :=
  s.row.committed && (s.row.deletedAt.any fun deletedAt => deletedAt < now - 604800) &&
    !t.sourceInUse s.id

def deleteStaleSources (now : ℤ) : Tables :=
  { t with sources := t.sources.deleteWhere (t.isStale now) }

def deleteOldRuns (now : ℤ) : Tables :=
  { t with syncRuns := t.syncRuns.deleteWhere fun r =>
      r.row.finishedAt.any fun finishedAt => finishedAt < now - 2592000 }

def markDeleted (sourceId : ℕ) (deletedAt : ℤ) : Tables :=
  { t with
    sources := t.sources.updateWhere (fun s => s.id = sourceId && s.row.committed)
      fun s => { s with deletedAt := some deletedAt } }

def deleteSegmentsOf (groupId : ℕ) : Tables :=
  { t with segments := t.segments.deleteWhere (·.row.groupId = groupId) }

def deleteGroup (groupId : ℕ) : Tables :=
  { t with groups := t.groups.deleteWhere (·.id = groupId) }

def deleteModemSegments (modemId : ModemId) : Tables :=
  { t with segments := t.segments.deleteWhere fun s =>
      t.groups.rows.any fun g => g.id = s.row.groupId && g.row.modemId = modemId }

def deleteModemGroups (modemId : ModemId) : Tables :=
  { t with groups := t.groups.deleteWhere (·.row.modemId = modemId) }

def setRead (modemId : ModemId) (messageId : ℕ) (now : ℤ) : Tables :=
  { t with
    messages := t.messages.updateWhere
      (fun m => m.id = messageId && m.row.modemId = modemId && m.row.direction = .received)
      fun m => { m with isRead := true, updatedAt := now } }

end Tables

/-! ## Operations -/

/-- `sms_db_finish_scan` -/
def finishScan (modemId : ModemId) (storage : Text) (startedAt : ℤ) : Tx Unit :=
  exec fun t => t.forgetUnseen modemId storage startedAt

/-- The clock values `sms_db_prune` reads. -/
structure PruneClock where
  /-- `time(NULL)` -/
  groups : ℤ
  sources : ℤ
  runs : ℤ

/-- Groups without a message are dropped when their last part came before this time. -/
def orphanBefore (w : Windows) (clock : PruneClock) : ℤ :=
  clock.groups - max w.lateFragmentWindow w.multipartWait

/-- `sms_db_prune` -/
def prune (w : Windows) (modemId : ModemId) (receivedLimit sentLimit : ℤ) (clock : PruneClock) :
    Tx Unit := do
  if receivedLimit < 1 ∨ sentLimit < 1 then rollback
  else
    exec fun t => t.pruneDirection modemId .received receivedLimit
    exec fun t => t.pruneDirection modemId .sent sentLimit
    exec fun t => t.deleteOrphanSegments (orphanBefore w clock)
    exec fun t => t.deleteOrphanGroups (orphanBefore w clock)
    exec fun t => t.deleteStaleSources clock.sources
    exec fun t => t.deleteOldRuns clock.runs

/-- `sms_db_mark_source_deleted` -/
def markSourceDeleted (sourceId : ℕ) (deletedAt : ℤ) : Tx Unit :=
  exec fun t => t.markDeleted sourceId deletedAt

/-- `sms_db_delete_message`; returns the number of deleted messages. -/
def deleteMessage (modemId : ModemId) (messageId : ℕ) : Tx ℕ := do
  let found ← query fun t => t.messages.find? fun m => m.id = messageId && m.row.modemId = modemId
  exec fun t => t.deleteMessages fun m => m.id = messageId && m.row.modemId = modemId
  match found.bind (·.row.groupId) with
  | some groupId =>
    exec fun t => t.deleteSegmentsOf groupId
    exec fun t => t.deleteGroup groupId
  | none => pure ()
  return if found.isSome then 1 else 0

/-- `sms_db_delete_modem_messages`; returns the number of deleted messages. -/
def deleteModemMessages (modemId : ModemId) : Tx ℕ := do
  let deleted ← query fun t => (t.messages.select (·.row.modemId = modemId)).length
  exec fun t => t.deleteMessages (·.row.modemId = modemId)
  exec fun t => t.deleteModemSegments modemId
  exec fun t => t.deleteModemGroups modemId
  return deleted

/-- `sms_db_record_sync` -/
def recordSync (syncRun : SyncRun) (syncedAt : ℤ) : Tx Unit := do
  exec fun t => t.ensureModem syncRun.modemId
  exec fun t => { t with syncRuns := t.syncRuns.insert syncRun }
  exec fun t => { t with
    modems := t.modems.updateWhere (·.row.modemId = syncRun.modemId)
      fun m => { m with lastSyncAt := some syncedAt } }

/-- `sms_db_record_event`; returns whether events were missed. -/
def recordEvent (modemId : ModemId) (epoch sequence : ℤ) : Tx Bool := do
  exec fun t => t.ensureModem modemId
  let modem ← query fun t => t.modems.find? (·.row.modemId = modemId)
  let previousEpoch := (modem.bind (·.row.lastEventEpoch)).getD 0
  let previousSequence := (modem.bind (·.row.lastEventSequence)).getD 0
  exec fun t => { t with
    modems := t.modems.updateWhere (·.row.modemId = modemId)
      fun m => { m with lastEventEpoch := some epoch, lastEventSequence := some sequence } }
  return previousEpoch ≠ 0 && (epoch ≠ previousEpoch || sequence ≠ previousSequence + 1)

/-- A message that was sent or imported from a legacy file: it belongs to no group and is not
forwarded. -/
structure LooseMessage where
  modemId : ModemId
  direction : Direction
  sender : Option Text
  recipient : Option Text
  timestamp : ℤ
  content : Text
  isRead : Bool
  sendSuccess : Option Bool
  conversationContact : Option Text

def LooseMessage.message (m : LooseMessage) (now : ℤ) : Message where
  modemId := m.modemId
  direction := m.direction
  sender := m.sender
  recipient := m.recipient
  timestamp := m.timestamp
  content := m.content
  complete := true
  isRead := m.isRead
  sendSuccess := m.sendSuccess
  createdAt := now
  updatedAt := now
  conversationContact := m.conversationContact

/-- The `INSERT INTO messages` of `send` and of the legacy migration. -/
def addLooseMessage (m : LooseMessage) (now : ℤ) : Tx Unit :=
  exec fun t => t.insertMessage (m.message now)

/-- `mark_read_method` -/
def markRead (modemId : ModemId) (messageId : ℕ) (now : ℤ) : Tx Unit :=
  exec fun t => t.setRead modemId messageId now

end QModem.Smsd
