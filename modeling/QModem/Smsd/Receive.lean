import QModem.Smsd.Schema

/-!
# Receiving Messages

`sms_db_import_segment` and `sms_db_publish_expired` of `qmodem_smsd/src/sms_db.c` with the
functions they call.  Every SQL statement is a function on the tables; the C functions are
transactions made of them.
-/

namespace QModem.Smsd

open Lib Transaction

/-! ## Arguments and results -/

/-- The two time windows of `sms_db_t`, in seconds. -/
structure Windows where
  multipartWait : ℤ := 300
  lateFragmentWindow : ℤ := 3600
  multipartWait_pos : 0 < multipartWait := by decide
  lateFragmentWindow_pos : 0 < lateFragmentWindow := by decide

def setMultipartWindows (w : Windows) (waitSeconds lateSeconds : ℤ) : Windows where
  multipartWait := if 0 < waitSeconds then waitSeconds else w.multipartWait
  lateFragmentWindow := if 0 < lateSeconds then lateSeconds else w.lateFragmentWindow
  multipartWait_pos := by
    split
    · assumption
    · exact w.multipartWait_pos
  lateFragmentWindow_pos := by
    split
    · assumption
    · exact w.lateFragmentWindow_pos

/-- `sms_segment_t` -/
structure SmsSegment where
  modemId : ModemId
  storage : Text
  sourceIndex : ℤ
  pdu : Text
  sender : Text
  timestamp : ℤ
  content : Text
  reference : ℤ
  totalParts : ℤ
  partNumber : ℤ
  deriving DecidableEq

def SmsSegment.fingerprint (s : SmsSegment) : ModemId × Text × ℤ × Text :=
  (s.modemId, s.storage, s.sourceIndex, s.pdu)

/-- The number of parts; a message that is not split has one. -/
def SmsSegment.total (s : SmsSegment) : ℤ := if 1 < s.totalParts then s.totalParts else 1

/-- What identifies the parts of one message. -/
def SmsSegment.groupKey (s : SmsSegment) : ModemId × Text × ℤ × ℤ :=
  (s.modemId, s.sender, s.reference, s.totalParts)

def SmsSegment.asPart (s : SmsSegment) (groupId sourceId : ℕ) : Segment where
  groupId := groupId
  sourceId := sourceId
  partNumber := s.partNumber
  timestamp := s.timestamp
  content := s.content

def Group.groupKey (g : Group) : ModemId × Text × ℤ × ℤ :=
  (g.modemId, g.sender, g.reference, g.totalParts)

/-- `sms_import_result_t`; the message fields are zero unless a message was published. -/
structure ImportResult where
  duplicate : Bool
  safeToDelete : Bool
  messageId : ℕ := 0
  published : Bool := false
  revision : ℕ := 0
  sourceId : ℕ
  deriving DecidableEq

/-- The message `publish_group` or `insert_single_message` has published. -/
structure Published where
  messageId : ℕ
  revision : ℕ
  deriving DecidableEq

/-! ## Statements -/

namespace Tables

variable (t : Tables)

/-- `INSERT OR IGNORE` -/
def ensureModem (modemId : ModemId) : Tables :=
  { t with
    modems :=
      if (t.modems.find? fun m => m.row.modemId = modemId).isSome then t.modems
      else t.modems.insert { modemId } }

def sourceOf (segment : SmsSegment) : Option (Entry Source) :=
  t.sources.find? fun s => s.row.fingerprint = segment.fingerprint

def touchSource (sourceId : ℕ) (now : ℤ) : Tables :=
  { t with sources := t.sources.updateWhere (·.id = sourceId) fun s => { s with importedAt := now } }

def insertSource (segment : SmsSegment) (now : ℤ) : Tables :=
  { t with sources := t.sources.insert {
      modemId := segment.modemId
      storage := segment.storage
      sourceIndex := segment.sourceIndex
      pdu := segment.pdu
      importedAt := now } }

def commitSource (sourceId : ℕ) : Tables :=
  { t with sources := t.sources.updateWhere (·.id = sourceId) fun s => { s with committed := true } }

/-- The message of a group, if it has been published. -/
def messageOfGroup (groupId : ℕ) : Option (Entry Message) :=
  t.messages.find? fun m => m.row.groupId = some groupId

/-- `m.id IS NULL OR m.complete=0` for the message joined to a group. -/
def isOpen (groupId : ℕ) : Bool :=
  match t.messageOfGroup groupId with
  | none => true
  | some m => !m.row.complete

/-- `ORDER BY g.last_seen DESC,g.id DESC` -/
def newestFirst (a b : Entry Group) : Prop :=
  b.row.lastSeen < a.row.lastSeen ∨ (a.row.lastSeen = b.row.lastSeen ∧ b.id ≤ a.id)

instance : DecidableRel newestFirst := fun a b =>
  inferInstanceAs (Decidable (b.row.lastSeen < a.row.lastSeen ∨ _))

def lookupGroup (w : Windows) (segment : SmsSegment) (now : ℤ) : Option (Entry Group) :=
  ((t.groups.select fun g =>
      g.row.groupKey = segment.groupKey && now - w.lateFragmentWindow ≤ g.row.lastSeen &&
        t.isOpen g.id).insertionSort newestFirst).head?

def insertGroup (segment : SmsSegment) (now : ℤ) : Tables :=
  { t with groups := t.groups.insert {
      modemId := segment.modemId
      sender := segment.sender
      reference := segment.reference
      totalParts := segment.totalParts
      firstSeen := now
      lastSeen := now } }

def touchGroup (groupId : ℕ) (now : ℤ) : Tables :=
  { t with groups := t.groups.updateWhere (·.id = groupId) fun g => { g with lastSeen := now } }

/-- The segment in a slot of a group. -/
def segmentAt (groupId : ℕ) (partNumber : ℤ) : Option (Entry Segment) :=
  t.segments.find? fun s => s.row.groupId = groupId && s.row.partNumber = partNumber

/-- `INSERT OR IGNORE`: a slot that is taken is left alone. -/
def insertSegment (segment : SmsSegment) (groupId sourceId : ℕ) : Tables :=
  { t with
    segments :=
      if (t.segmentAt groupId segment.partNumber).isSome then t.segments
      else t.segments.insert (segment.asPart groupId sourceId) }

/-- `SELECT count(*)` over the segments of a group. -/
def partCount (groupId : ℕ) : ℕ := (t.segments.select (·.row.groupId = groupId)).length

/-- `part_count >= total_parts` -/
def hasAllParts (g : Entry Group) : Bool := g.row.totalParts ≤ t.partCount g.id

/-- `ORDER BY part_number` -/
def groupSegments (groupId : ℕ) : List (Entry Segment) :=
  (t.segments.select (·.row.groupId = groupId)).insertionSort
    fun a b => a.row.partNumber ≤ b.row.partNumber

/-- The text `group_content` puts together. -/
def groupContent (groupId : ℕ) : Text := (t.groupSegments groupId).flatMap (·.row.content)

/-- The timestamp `group_content` reports: the smallest one, zero without segments. -/
def groupTimestamp (groupId : ℕ) : ℤ :=
  match (t.groupSegments groupId).map (·.row.timestamp) with
  | [] => 0
  | first :: rest => rest.foldl min first

/-- `INSERT OR IGNORE` on message and revision. -/
def insertDelivery (messageId revision : ℕ) (now : ℤ) : Tables :=
  { t with
    deliveries :=
      if (t.deliveries.find? fun d =>
        d.row.messageId = messageId && d.row.revision = revision).isSome then t.deliveries
      else t.deliveries.insert { messageId, revision, availableAt := now } }

def reviseMessage (messageId : ℕ) (content : Text) (complete : Bool) (revision : ℕ) (now : ℤ) :
    Tables :=
  { t with messages := t.messages.updateWhere (·.id = messageId) fun m =>
      { m with content, complete, revision, updatedAt := now } }

def insertMessage (message : Message) : Tables :=
  { t with messages := t.messages.insert message }

end Tables

/-! ## Publishing a group -/

/-- `queue_delivery`, called only when forwarding is enabled. -/
def queueDelivery (forwarding : Bool) (messageId revision : ℕ) (now : ℤ) : Tx Unit :=
  if forwarding then exec fun t => t.insertDelivery messageId revision now else pure ()

/-- `char sender[128]` of `publish_group`, filled by `snprintf`. -/
def senderField (sender : Text) : Text := sender.take 127

/-- The message for a group that has none.  A modem name fits `char modem_id[128]`. -/
def groupMessage (t : Tables) (g : Entry Group) (complete : Bool) (now : ℤ) : Message where
  modemId := g.row.modemId
  direction := .received
  sender := some (senderField g.row.sender)
  timestamp := t.groupTimestamp g.id
  content := t.groupContent g.id
  groupId := some g.id
  complete := complete
  createdAt := now
  updatedAt := now

def publishGroup (groupId : ℕ) (now : ℤ) (forwarding : Bool) : Tx Published := do
  match ← query fun t => t.groups.find? (·.id = groupId) with
  | none => rollback
  | some g =>
    let content ← query fun t => t.groupContent groupId
    let complete ← query fun t => t.hasAllParts g
    match ← query fun t => t.messageOfGroup groupId with
    | some m =>
      if m.row.content = content ∧ m.row.complete = complete then
        return ⟨m.id, m.row.revision⟩
      else
        let revision := m.row.revision + 1
        exec fun t => t.reviseMessage m.id content complete revision now
        queueDelivery forwarding m.id revision now
        return ⟨m.id, revision⟩
    | none =>
      let messageId ← query fun t => t.messages.nextId
      exec fun t => t.insertMessage (groupMessage t g complete now)
      queueDelivery forwarding messageId 1 now
      return ⟨messageId, 1⟩

/-! ## Importing a segment -/

def singleMessage (segment : SmsSegment) (now : ℤ) : Message where
  modemId := segment.modemId
  direction := .received
  sender := some segment.sender
  timestamp := segment.timestamp
  content := segment.content
  complete := true
  createdAt := now
  updatedAt := now

def insertSingleMessage (segment : SmsSegment) (now : ℤ) (forwarding : Bool) : Tx Published := do
  let messageId ← query fun t => t.messages.nextId
  exec fun t => t.insertMessage (singleMessage segment now)
  queueDelivery forwarding messageId 1 now
  return ⟨messageId, 1⟩

def findGroup (w : Windows) (segment : SmsSegment) (now : ℤ) : Tx ℕ := do
  match ← query fun t => t.lookupGroup w segment now with
  | some g => return g.id
  | none =>
    let groupId ← query fun t => t.groups.nextId
    exec fun t => t.insertGroup segment now
    return groupId

/-- The branch of `sms_db_import_segment` for a part of a longer message. -/
def storePart (w : Windows) (segment : SmsSegment) (sourceId : ℕ) (now : ℤ) (forwarding : Bool) :
    Tx (Option Published) := do
  if segment.partNumber < 1 ∨ segment.total < segment.partNumber then rollback
  else
    let groupId ← findGroup w segment now
    exec fun t => t.insertSegment segment groupId sourceId
    exec fun t => t.touchGroup groupId now
    let count ← query fun t => t.partCount groupId
    if segment.total ≤ count then
      let published ← publishGroup groupId now forwarding
      return some published
    else return none

/-- Stores a segment that has not been imported before. -/
def storeSegment (w : Windows) (segment : SmsSegment) (sourceId : ℕ) (now : ℤ) (forwarding : Bool) :
    Tx (Option Published) := do
  if 1 < segment.total then storePart w segment sourceId now forwarding
  else
    let published ← insertSingleMessage segment now forwarding
    return some published

/-- `sms_db_import_segment` -/
def importSegment (w : Windows) (segment : SmsSegment) (now : ℤ) (forwarding : Bool) :
    Tx ImportResult := do
  if segment.sourceIndex < 0 then rollback
  else
    exec fun t => t.ensureModem segment.modemId
    match ← query fun t => t.sourceOf segment with
    | some source =>
      exec fun t => t.touchSource source.id now
      return { duplicate := true, safeToDelete := source.row.committed, sourceId := source.id }
    | none =>
      let sourceId ← query fun t => t.sources.nextId
      exec fun t => t.insertSource segment now
      let published ← storeSegment w segment sourceId now forwarding
      exec fun t => t.commitSource sourceId
      return {
        duplicate := false
        safeToDelete := true
        messageId := (published.map (·.messageId)).getD 0
        published := published.isSome
        revision := (published.map (·.revision)).getD 0
        sourceId }

/-! ## Publishing incomplete groups -/

/-- The order in which SQLite returns the rows of a `SELECT` without `ORDER BY`. -/
structure ScanOrder where
  order : List ℕ → List ℕ
  perm : ∀ ids, (order ids).Perm ids

def Tables.expiredGroups (t : Tables) (w : Windows) (modemId : ModemId) (now : ℤ) : List ℕ :=
  (t.groups.select fun g =>
    g.row.modemId = modemId && g.row.firstSeen ≤ now - w.multipartWait && t.isOpen g.id).map (·.id)

/-- The loop of `sms_db_publish_expired`, with the number of published messages. -/
def publishGroups (now : ℤ) (forwarding : Bool) : List ℕ → Tx ℕ
  | [] => return 0
  | groupId :: rest => do
    let _ ← publishGroup groupId now forwarding
    let count ← publishGroups now forwarding rest
    return count + 1

/-- `sms_db_publish_expired` -/
def publishExpired (w : Windows) (modemId : ModemId) (now : ℤ) (forwarding : Bool)
    (scan : ScanOrder) : Tx ℕ := do
  let groups ← query fun t => scan.order (t.expiredGroups w modemId now)
  publishGroups now forwarding groups

end QModem.Smsd
