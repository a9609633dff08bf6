import QModem.Lib.CMemory
import QModem.Lib.Connection
import QModem.Smsd.Validity

/-!
# Operations Statement by Statement

The write operations of `sms_db.c` once more, as the calls they make on the SQLite connection: every
`sqlite3_prepare_v2`, `sqlite3_step` and `exec_sql` may fail, and what is done then is part of the
model.  A `SELECT` whose step fails is taken for one without a row, and the exits of the functions
differ in what they roll back.

## Main results

- `importStatements_realizes`, `publishGroups_realizes`, `deleteStatements_realizes`: as long as no
  statement fails, the operations are the transactions of `Receive` and `Maintain`
- `discipline_iff`: an operation that reports an error has changed nothing and is outside of any
  transaction, unless its `COMMIT` fails or, in `sms_db_record_sync`, `ensure_modem`
- `leftOpen_not_clean`: operations that leave their transaction open
-/

namespace QModem.Smsd.Sql

open Lib Script

/-- The statements, by the functions they are in and what they do. -/
inductive Statement where
  | ensureModem
  | selectSource
  | touchSource
  | insertSource
  | lookupGroup
  | insertGroup
  | insertSegment
  | touchGroup
  | countSegments
  | selectGroup
  | selectSegments
  | selectMessage
  | reviseMessage
  | insertGroupMessage
  | insertSingleMessage
  | insertDelivery
  | commitSource
  | selectExpired
  | insertSyncRun
  | updateLastSync
  | pruneReceived
  | pruneSent
  | deleteOrphanSegments
  | deleteOrphanGroups
  | deleteStaleSources
  | deleteOldRuns
  | selectGroupOfMessage
  | deleteMessage
  | deleteSegments
  | deleteGroup
  | deleteModemMessages
  | deleteModemSegments
  | deleteModemGroups
  deriving DecidableEq

/-- A piece of a function of `sms_db.c`. -/
abbrev Routine := Script Statement Constraints

/-! ## Receiving -/

def ensureModem (modemId : ModemId) : Routine Unit := exec .ensureModem fun t => t.ensureModem modemId

/-- `queue_delivery`, called only when forwarding is enabled. -/
def queueDelivery (forwarding : Bool) (messageId revision : ℕ) (now : ℤ) : Routine Unit :=
  if forwarding then exec .insertDelivery fun t => t.insertDelivery messageId revision now
  else pure ()

/-- The text `group_content` makes of the rows it has read. -/
def contentOf (rows : List (Entry Segment)) : Text := rows.flatMap (·.row.content)

/-- The timestamp `group_content` makes of the rows it has read. -/
def timestampOf (rows : List (Entry Segment)) : ℤ :=
  match rows.map (·.row.timestamp) with
  | [] => 0
  | first :: rest => rest.foldl min first

/-- The message for a group that has none, from the segments that were read. -/
def groupMessage (rows : List (Entry Segment)) (g : Entry Group) (complete : Bool) (now : ℤ) :
    Message where
  modemId := g.row.modemId
  direction := .received
  sender := some (senderField g.row.sender)
  timestamp := timestampOf rows
  content := contentOf rows
  groupId := some g.id
  complete := complete
  createdAt := now
  updatedAt := now

def publishGroup (groupId : ℕ) (now : ℤ) (forwarding : Bool) : Routine Published := do
  match ← selectRow .selectGroup fun t => t.groups.find? (·.id = groupId) with
  | none => fail
  | some g =>
    let rows ← selectRows .selectSegments fun t => t.groupSegments groupId
    let content := contentOf rows
    let complete : Bool := g.row.totalParts ≤ rows.length
    match ← selectRow .selectMessage fun t => t.messageOfGroup groupId with
    | some m =>
      if m.row.content = content ∧ m.row.complete = complete then
        return ⟨m.id, m.row.revision⟩
      else
        let revision := m.row.revision + 1
        exec .reviseMessage fun t => t.reviseMessage m.id content complete revision now
        queueDelivery forwarding m.id revision now
        return ⟨m.id, revision⟩
    | none =>
      let messageId ← query fun t => t.messages.nextId
      exec .insertGroupMessage fun t => t.insertMessage (groupMessage rows g complete now)
      queueDelivery forwarding messageId 1 now
      return ⟨messageId, 1⟩

def insertSingleMessage (segment : SmsSegment) (now : ℤ) (forwarding : Bool) : Routine Published := do
  let messageId ← query fun t => t.messages.nextId
  exec .insertSingleMessage fun t => t.insertMessage (singleMessage segment now)
  queueDelivery forwarding messageId 1 now
  return ⟨messageId, 1⟩

def findGroup (w : Windows) (segment : SmsSegment) (now : ℤ) : Routine ℕ := do
  match ← selectRow .lookupGroup fun t => t.lookupGroup w segment now with
  | some g => return g.id
  | none =>
    let groupId ← query fun t => t.groups.nextId
    exec .insertGroup fun t => t.insertGroup segment now
    return groupId

/-- The branch of `sms_db_import_segment` for a part of a longer message. -/
def storePart (w : Windows) (segment : SmsSegment) (sourceId : ℕ) (now : ℤ) (forwarding : Bool) :
    Routine (Option Published) := do
  if segment.partNumber < 1 ∨ segment.total < segment.partNumber then fail
  else
    let groupId ← findGroup w segment now
    exec .insertSegment fun t => t.insertSegment segment groupId sourceId
    exec .touchGroup fun t => t.touchGroup groupId now
    let count ← selectRow .countSegments fun t => some (t.partCount groupId)
    if segment.total ≤ count.getD 0 then
      let published ← publishGroup groupId now forwarding
      return some published
    else return none

def storeSegment (w : Windows) (segment : SmsSegment) (sourceId : ℕ) (now : ℤ) (forwarding : Bool) :
    Routine (Option Published) := do
  if 1 < segment.total then storePart w segment sourceId now forwarding
  else
    let published ← insertSingleMessage segment now forwarding
    return some published

/-- `sms_db_import_segment` between `BEGIN` and `COMMIT`. -/
def importStatements (w : Windows) (segment : SmsSegment) (now : ℤ) (forwarding : Bool) :
    Routine ImportResult := do
  ensureModem segment.modemId
  match ← selectRow .selectSource fun t => t.sourceOf segment with
  | some source =>
    exec .touchSource fun t => t.touchSource source.id now
    return { duplicate := true, safeToDelete := source.row.committed, sourceId := source.id }
  | none =>
    let sourceId ← query fun t => t.sources.nextId
    exec .insertSource fun t => t.insertSource segment now
    let published ← storeSegment w segment sourceId now forwarding
    exec .commitSource fun t => t.commitSource sourceId
    return {
      duplicate := false
      safeToDelete := true
      messageId := (published.map (·.messageId)).getD 0
      published := published.isSome
      revision := (published.map (·.revision)).getD 0
      sourceId }

/-- `sms_db_import_segment` -/
def importSegment (w : Windows) (segment : SmsSegment) (now : ℤ) (forwarding : Bool) :
    Routine ImportResult :=
  if segment.sourceIndex < 0 then fail
  else transaction (importStatements w segment now forwarding)

def publishGroups (now : ℤ) (forwarding : Bool) : List ℕ → Routine ℕ
  | [] => return 0
  | groupId :: rest => do
    let _ ← publishGroup groupId now forwarding
    let count ← publishGroups now forwarding rest
    return count + 1

/-- `sms_db_publish_expired` -/
def publishExpired (w : Windows) (modemId : ModemId) (now : ℤ) (forwarding : Bool)
    (scan : ScanOrder) : Routine ℕ :=
  transaction do
    let groups ← selectRows .selectExpired fun t => scan.order (t.expiredGroups w modemId now)
    publishGroups now forwarding groups

/-! ## Maintenance -/

/-- `sms_db_record_sync` behind `ensure_modem`. -/
def syncStatements (syncRun : SyncRun) (syncedAt : ℤ) : Routine Unit := do
  exec .insertSyncRun fun t => { t with syncRuns := t.syncRuns.insert syncRun }
  exec .updateLastSync fun t => { t with
    modems := t.modems.updateWhere (·.row.modemId = syncRun.modemId)
      fun m => { m with lastSyncAt := some syncedAt } }

/-- `sms_db_record_sync`.  When `ensure_modem` fails, the function leaves through the label of a
failed `BEGIN`, behind the rollback. -/
def recordSync (syncRun : SyncRun) (syncedAt : ℤ) : Routine Unit := do
  begin
  ensureModem syncRun.modemId
  orRollbackThenCommit (syncStatements syncRun syncedAt)

/-- `sms_db_prune` between `BEGIN` and `COMMIT`. -/
def pruneStatements (w : Windows) (modemId : ModemId) (receivedLimit sentLimit : ℤ)
    (clock : PruneClock) : Routine Unit := do
  exec .pruneReceived fun t => t.pruneDirection modemId .received receivedLimit
  exec .pruneSent fun t => t.pruneDirection modemId .sent sentLimit
  exec .deleteOrphanSegments fun t => t.deleteOrphanSegments (orphanBefore w clock)
  exec .deleteOrphanGroups fun t => t.deleteOrphanGroups (orphanBefore w clock)
  exec .deleteStaleSources fun t => t.deleteStaleSources clock.sources
  exec .deleteOldRuns fun t => t.deleteOldRuns clock.runs

/-- `sms_db_prune` -/
def prune (w : Windows) (modemId : ModemId) (receivedLimit sentLimit : ℤ) (clock : PruneClock) :
    Routine Unit :=
  if receivedLimit < 1 ∨ sentLimit < 1 then fail
  else transaction (pruneStatements w modemId receivedLimit sentLimit clock)

/-- `sms_db_delete_message` between `BEGIN` and `COMMIT`. -/
def deleteStatements (modemId : ModemId) (messageId : ℕ) : Routine ℕ := do
  let groupId ← selectRow .selectGroupOfMessage fun t =>
    (t.messages.find? fun m => m.id = messageId && m.row.modemId = modemId).bind (·.row.groupId)
  -- `sqlite3_changes`
  let deleted ← query fun t =>
    if (t.messages.find? fun m => m.id = messageId && m.row.modemId = modemId).isSome then 1 else 0
  exec .deleteMessage fun t => t.deleteMessages fun m => m.id = messageId && m.row.modemId = modemId
  match groupId with
  | some groupId =>
    exec .deleteSegments fun t => t.deleteSegmentsOf groupId
    exec .deleteGroup fun t => t.deleteGroup groupId
  | none => pure ()
  return deleted

/-- `sms_db_delete_message`, which also rolls back behind a failed `BEGIN` -/
def deleteMessage (modemId : ModemId) (messageId : ℕ) : Routine ℕ :=
  orRollbackThenCommit do
    begin
    deleteStatements modemId messageId

/-- `sms_db_delete_modem_messages` -/
def deleteModemMessages (modemId : ModemId) : Routine ℕ :=
  transaction do
    let deleted ← query fun t => (t.messages.select (·.row.modemId = modemId)).length
    exec .deleteModemMessages fun t => t.deleteMessages (·.row.modemId = modemId)
    exec .deleteModemSegments fun t => t.deleteModemSegments modemId
    exec .deleteModemGroups fun t => t.deleteModemGroups modemId
    return deleted

/-! ## Routines for transactions -/

variable (modemId : ModemId) (groupId : ℕ) (w : Windows) (segment : SmsSegment) (sourceId : ℕ)
  (now : ℤ) (forwarding : Bool) (messageId : ℕ)

theorem ensureModem_realizes :
    Realizes (ensureModem modemId) (Transaction.exec fun t => t.ensureModem modemId) := .exec _ _

theorem queueDelivery_realizes (revision : ℕ) (now : ℤ) :
    Realizes (queueDelivery forwarding messageId revision now)
      (Smsd.queueDelivery forwarding messageId revision now) := by
  cases forwarding with
  | false => exact .pure ()
  | true => exact .exec _ _

theorem length_groupSegments (t : Tables) (groupId : ℕ) :
    (t.groupSegments groupId).length = t.partCount groupId :=
  List.length_insertionSort _ _

/-- All statements of a publication run inside the transaction. -/
theorem publishGroup_inside : Inside (publishGroup groupId now forwarding) := by
  refine (Realizes.selectRow _ _).inside.bind fun found => ?_
  cases found with
  | none => exact Realizes.fail.inside
  | some g =>
    refine (Realizes.selectRows _ _).inside.bind fun rows => ?_
    refine (Realizes.selectRow _ _).inside.bind fun published => ?_
    -- revise the message, or insert one
    cases published with
    | some m =>
      dsimp only
      split
      · exact .pure _
      · refine (Realizes.exec _ _).inside.bind fun _ => ?_
        exact (queueDelivery_realizes _ _ _ _).inside.bind fun _ => .pure _
    | none =>
      refine (Realizes.query _).inside.bind fun messageId => ?_
      refine (Realizes.exec _ _).inside.bind fun _ => ?_
      exact (queueDelivery_realizes _ _ _ _).inside.bind fun _ => .pure _

/-- The statements do what the transaction says. -/
theorem publishGroup_realizes :
    Realizes (publishGroup groupId now forwarding)
      (Smsd.publishGroup groupId now forwarding) where
  inside := publishGroup_inside groupId now forwarding
  agrees store := by
    refine .reads (.read (.selectRow _ _) ?_)
    cases hfound : store.data.groups.find? (·.id = groupId) with
    | none => exact Realizes.fail.agrees store
    | some g =>
      obtain rfl : g.id = groupId := by simpa using (Table.mem_of_find? hfound).2
      refine .reads (.reads (.read (.selectRows _ _) (.reads (.read (.selectRow _ _) ?_))))
      have hcomplete : decide (g.row.totalParts ≤ (store.data.groupSegments g.id).length) =
          store.data.hasAllParts g := by rw [length_groupSegments]; rfl
      have hcontent : contentOf (store.data.groupSegments g.id) = store.data.groupContent g.id := rfl
      simp only [hcomplete, hcontent]
      cases store.data.messageOfGroup g.id with
      | some m =>
        dsimp only
        split
        · exact (Realizes.pure _).agrees store
        · refine ((Realizes.exec _ _).agrees store).bind fun _ store' _ => ?_
          exact ((queueDelivery_realizes _ _ _ _).bind fun _ => .pure _).agrees store'
      | none =>
        refine .reads (.read (.query _) ((Agrees.exec _ ?_).bind fun _ store' _ => ?_))
        · -- the statement reads the group itself where the function has read it before
          rfl
        · exact ((queueDelivery_realizes _ _ _ _).bind fun _ => .pure _).agrees store'

theorem insertSingleMessage_realizes :
    Realizes (insertSingleMessage segment now forwarding)
      (Smsd.insertSingleMessage segment now forwarding) :=
  .bind (.query _) fun _ => .bind (.exec _ _) fun _ =>
    (queueDelivery_realizes _ _ _ _).bind fun _ => .pure _

theorem findGroup_realizes : Realizes (findGroup w segment now) (Smsd.findGroup w segment now) := by
  refine .bind (.selectRow _ _) fun found => ?_
  cases found with
  | some g => exact .pure _
  | none => exact .bind (.query _) fun _ => .bind (.exec _ _) fun _ => .pure _

/-- So do those for a part. -/
theorem storePart_realizes :
    Realizes (storePart w segment sourceId now forwarding)
      (Smsd.storePart w segment sourceId now forwarding) := by
  unfold storePart Smsd.storePart
  split
  · exact .fail
  · refine (findGroup_realizes w segment now).bind fun groupId => ?_
    refine .bind (.exec _ _) fun _ => .bind (.exec _ _) fun _ => ?_
    -- the count is read from one row, which is always there
    refine .bind (.selectRow _ _) (g := fun count : Option ℕ =>
      if segment.total ≤ count.getD 0 then
        Smsd.publishGroup groupId now forwarding >>= fun published => pure (some published)
      else pure none) fun count => ?_
    split
    · exact (publishGroup_realizes groupId now forwarding).bind fun _ => .pure _
    · exact .pure _

theorem storeSegment_realizes :
    Realizes (storeSegment w segment sourceId now forwarding)
      (Smsd.storeSegment w segment sourceId now forwarding) := by
  unfold storeSegment Smsd.storeSegment
  split
  · exact storePart_realizes w segment sourceId now forwarding
  · exact (insertSingleMessage_realizes segment now forwarding).bind fun _ => .pure _

/-- And those for a segment, whose index was checked before. -/
theorem importStatements_realizes (hindex : 0 ≤ segment.sourceIndex) :
    Realizes (importStatements w segment now forwarding)
      (Smsd.importSegment w segment now forwarding) := by
  rw [Smsd.importSegment, if_neg (not_lt.mpr hindex)]
  refine (ensureModem_realizes _).bind fun _ => .bind (.selectRow _ _) fun found => ?_
  cases found with
  | some source => exact .bind (.exec _ _) fun _ => .pure _
  | none =>
    exact .bind (.query _) fun _ => .bind (.exec _ _) fun _ =>
      (storeSegment_realizes w segment _ now forwarding).bind fun _ =>
        .bind (.exec _ _) fun _ => .pure _

theorem publishGroups_realizes (ids : List ℕ) :
    Realizes (publishGroups now forwarding ids) (Smsd.publishGroups now forwarding ids) := by
  induction ids with
  | nil => exact .pure 0
  | cons groupId rest ih =>
    exact (publishGroup_realizes groupId now forwarding).bind fun _ => ih.bind fun _ => .pure _

/-- The group is looked up before the message is deleted. -/
theorem deleteStatements_realizes :
    Realizes (deleteStatements modemId messageId) (Smsd.deleteMessage modemId messageId) where
  inside := by
    refine (Realizes.selectRow _ _).inside.bind fun groupId => ?_
    refine (Realizes.query _).inside.bind fun deleted => (Realizes.exec _ _).inside.bind fun _ => ?_
    cases groupId with
    | none => exact .pure _
    | some groupId =>
      exact (Realizes.exec _ _).inside.bind fun _ => (Realizes.exec _ _).inside.bind fun _ => .pure _
  agrees store := by
    -- two queries in front, which the model does not repeat
    refine .reads (.read (.selectRow _ _) (.read (.query _) ?_))
    refine ((Realizes.exec _ _).agrees store).bind fun _ store' _ => ?_
    generalize store.data.messages.find? _ = found
    cases found.bind (·.row.groupId) with
    | none => exact (Realizes.pure _).agrees store'
    | some groupId =>
      refine Realizes.agrees ?_ store'
      exact .bind (.exec _ _) fun _ => .bind (.exec _ _) fun _ => .pure _

/-! ## Failures of an operation -/

section Clean

variable (fault : Option (Fault Statement)) (db : Database)

/-- An import leaves the connection clean unless its commit fails. -/
theorem importSegment_clean_iff :
    Clean (importSegment w segment now forwarding) fault db ↔
      ¬(fault = some ⟨.commit, 0⟩ ∧
        Transaction.Succeeds (Smsd.importSegment w segment now forwarding) db) := by
  by_cases hindex : segment.sourceIndex < 0
  · rw [importSegment, if_pos hindex, Smsd.importSegment, if_pos hindex]
    exact iff_of_true (clean_fail fault db) fun h => by obtain ⟨-, -, -, ⟨⟩⟩ := h
  · rw [importSegment, if_neg hindex]
    exact clean_transaction_iff
      (importStatements_realizes w segment now forwarding (not_lt.mp hindex)) fault db

theorem publishExpired_clean_iff (scan : ScanOrder) :
    Clean (publishExpired w modemId now forwarding scan) fault db ↔ fault ≠ some ⟨.commit, 0⟩ := by
  have hrealizes := (Realizes.selectRows .selectExpired
    fun t => scan.order (t.expiredGroups w modemId now)).bind (publishGroups_realizes now forwarding)
  refine (clean_transaction_iff hrealizes fault db).trans (not_congr (and_iff_left ?_))
  exact publishExpired_succeeds w modemId now forwarding scan

/-- Nobody rolls back when the first statement fails, so its faults count, too. -/
theorem recordSync_clean_iff (syncRun : SyncRun) (syncedAt : ℤ) :
    Clean (recordSync syncRun syncedAt) fault db ↔
      fault ≠ some ⟨.commit, 0⟩ ∧ fault ≠ some ⟨.prepare .ensureModem, 0⟩ ∧
        fault ≠ some ⟨.step .ensureModem, 0⟩ := by
  have hensured := db.valid.ensureModem syncRun.modemId
  have hsync : Constraints { db.data.ensureModem syncRun.modemId with
      syncRuns := db.data.syncRuns.insert syncRun } := { hensured with }
  have hrealizes : Realizes (syncStatements syncRun syncedAt) _ :=
    .bind (.exec _ _) fun _ => Realizes.exec _ _
  refine (clean_unguarded_iff hrealizes fault hensured).trans
    (and_congr_left' (not_congr (and_iff_left ?_)))
  refine .exec_bind hsync (.exec ?_)
  exact { hsync with modems_id := hsync.modems_id.updateWhere fun _ _ _ => rfl }

/-- Retention with limits in their range. -/
theorem prune_clean_iff (receivedLimit sentLimit : ℤ) (clock : PruneClock) :
    Clean (prune w modemId receivedLimit sentLimit clock) fault db ↔
      ¬(fault = some ⟨.commit, 0⟩ ∧ 1 ≤ receivedLimit ∧ 1 ≤ sentLimit) := by
  -- wrong limits are refused before the transaction begins
  by_cases hlimits : receivedLimit < 1 ∨ sentLimit < 1
  · rw [prune, if_pos hlimits]
    exact iff_of_true (clean_fail fault db) (by omega)
  · have hrealizes : Realizes (pruneStatements w modemId receivedLimit sentLimit clock)
        (Smsd.prune w modemId receivedLimit sentLimit clock) := by
      rw [Smsd.prune, if_neg hlimits]
      exact .bind (.exec _ _) fun _ => .bind (.exec _ _) fun _ =>
        .bind (.exec _ _) fun _ => .bind (.exec _ _) fun _ =>
          .bind (.exec _ _) fun _ => .exec _ _
    rw [prune, if_neg hlimits]
    refine (clean_transaction_iff hrealizes fault db).trans
      (not_congr (and_congr_right fun _ => iff_of_true ?_ (by omega)))
    exact prune_succeeds (by omega) (by omega)

theorem deleteMessage_clean_iff :
    Clean (deleteMessage modemId messageId) fault db ↔ fault ≠ some ⟨.commit, 0⟩ := by
  refine (clean_beginInside_iff (deleteStatements_realizes modemId messageId) fault db).trans
    (not_congr (and_iff_left ?_))
  exact deleteMessage_succeeds modemId messageId

theorem deleteModemMessages_clean_iff :
    Clean (deleteModemMessages modemId) fault db ↔
      ¬(fault = some ⟨.commit, 0⟩ ∧ Transaction.Succeeds (Smsd.deleteModemMessages modemId) db) := by
  refine clean_transaction_iff ?_ fault db
  exact .bind (.query _) fun _ => .bind (.exec _ _) fun _ =>
    .bind (.exec _ _) fun _ => .bind (.exec _ _) fun _ => .pure _

end Clean

/-! ## The operations -/

/-- The write operations, with everything they are called with. -/
inductive WriteOp where
  | importSegment (w : Windows) (segment : SmsSegment) (now : ℤ) (forwarding : Bool)
  | publishExpired (w : Windows) (modemId : ModemId) (now : ℤ) (forwarding : Bool)
    (scan : ScanOrder)
  | recordSync (syncRun : SyncRun) (syncedAt : ℤ)
  | prune (w : Windows) (modemId : ModemId) (receivedLimit sentLimit : ℤ) (clock : PruneClock)
  | deleteMessage (modemId : ModemId) (messageId : ℕ)
  | deleteModemMessages (modemId : ModemId)

namespace WriteOp

def Result : WriteOp → Type
  | importSegment .. => ImportResult
  | publishExpired .. => ℕ
  | recordSync .. => Unit
  | prune .. => Unit
  | deleteMessage .. => ℕ
  | deleteModemMessages .. => ℕ

def routine : (op : WriteOp) → Routine op.Result
  | importSegment w segment now forwarding => Sql.importSegment w segment now forwarding
  | publishExpired w modemId now forwarding scan =>
    Sql.publishExpired w modemId now forwarding scan
  | recordSync syncRun syncedAt => Sql.recordSync syncRun syncedAt
  | prune w modemId receivedLimit sentLimit clock =>
    Sql.prune w modemId receivedLimit sentLimit clock
  | deleteMessage modemId messageId => Sql.deleteMessage modemId messageId
  | deleteModemMessages modemId => Sql.deleteModemMessages modemId

/-- The operation is not refused, so that `COMMIT` is reached if no statement fails.  A segment that
is known is not looked at any further.  The groups of a modem can be deleted unless another modem
has a message in one of them, which does not happen. -/
def Accepted (db : Database) : WriteOp → Prop
  | importSegment _ segment _ _ =>
    0 ≤ segment.sourceIndex ∧ (db.data.sourceOf segment = none → 1 < segment.total →
      1 ≤ segment.partNumber ∧ segment.partNumber ≤ segment.total)
  | prune _ _ receivedLimit sentLimit _ => 1 ≤ receivedLimit ∧ 1 ≤ sentLimit
  | deleteModemMessages modemId =>
    ∀ g ∈ db.data.groups, g.row.modemId = modemId → ∀ m ∈ db.data.messages,
      m.row.groupId = some g.id → m.row.modemId = modemId
  | _ => True

/-- The failing call is neither the `COMMIT` of an operation that is not refused, nor in the
`ensure_modem` of `sms_db_record_sync`. -/
def Covered (db : Database) (fault : Option (Fault Statement)) (op : WriteOp) : Prop :=
  ¬(fault = some ⟨.commit, 0⟩ ∧ op.Accepted db) ∧
    match op with
    | recordSync .. =>
      fault ≠ some ⟨.prepare .ensureModem, 0⟩ ∧ fault ≠ some ⟨.step .ensureModem, 0⟩
    | _ => True

/-- The arguments that are accepted are those with which the transaction succeeds. -/
theorem importSegment_accepted_iff {db : Database} {w : Windows} {segment : SmsSegment} {now : ℤ}
    {forwarding : Bool} :
    (importSegment w segment now forwarding).Accepted db ↔
      Transaction.Succeeds (Smsd.importSegment w segment now forwarding) db := by
  constructor
  · rintro ⟨hindex, hpart⟩
    exact importSegment_succeeds hindex hpart
  · rintro ⟨r, db', h⟩
    constructor
    · by_contra hindex
      rw [Smsd.importSegment, if_pos (not_le.mp hindex)] at h
      cases h
    · intro hnew hmany
      -- a transaction that has succeeded has passed the checks
      have himported := importSegment_eq_some h
      generalize db'.data = t at himported
      cases himported with
      | duplicate source hsource => rw [hnew] at hsource; cases hsource
      | single _ hone => exact absurd hmany hone
      | part _ _ _ hlow hhigh => exact ⟨hlow, hhigh⟩

end WriteOp

/-- On any database and for any single call that fails, an operation that reports an error has
changed nothing and has left no transaction open, exactly if the failing call is covered. -/
theorem discipline_iff (op : WriteOp) (fault : Option (Fault Statement)) (db : Database) :
    Clean op.routine fault db ↔ op.Covered db fault := by
  -- one routine after the other, each with the faults its shape leaves open
  cases op with
  | importSegment w segment now forwarding =>
    refine (importSegment_clean_iff w segment now forwarding fault db).trans ?_
    rw [← WriteOp.importSegment_accepted_iff]
    exact (and_iff_left trivial).symm
  | publishExpired w modemId now forwarding scan =>
    refine (publishExpired_clean_iff modemId w now forwarding fault db scan).trans ?_
    simp [WriteOp.Covered, WriteOp.Accepted]
  | recordSync syncRun syncedAt =>
    refine (recordSync_clean_iff fault db syncRun syncedAt).trans ?_
    simp [WriteOp.Covered, WriteOp.Accepted]
  | prune w modemId receivedLimit sentLimit clock =>
    refine (prune_clean_iff modemId w fault db receivedLimit sentLimit clock).trans ?_
    exact (and_iff_left trivial).symm
  | deleteMessage modemId messageId =>
    refine (deleteMessage_clean_iff modemId messageId fault db).trans ?_
    simp [WriteOp.Covered, WriteOp.Accepted]
  | deleteModemMessages modemId =>
    refine (deleteModemMessages_clean_iff modemId fault db).trans ?_
    rw [deleteModemMessages_succeeds_iff]
    exact (and_iff_left trivial).symm

/-! ## Transactions that stay open -/

def modem : ModemId := ⟨ascii "m1", by decide⟩

def manualSync : SyncRun where
  modemId := modem
  trigger := ascii "manual"
  startedAt := 0
  finishedAt := some 0
  imported := 0
  error := none

/-- `sms_db_record_sync` with an `ensure_modem` that fails, and `sms_db_delete_message` with a
`COMMIT` that fails, leave the transaction open, so that the next operation cannot begin one. -/
theorem leftOpen_not_clean :
    ¬Clean (WriteOp.recordSync manualSync 0).routine (some ⟨.step .ensureModem, 0⟩) Database.empty ∧
      ¬Clean (WriteOp.deleteMessage modem 1).routine (some ⟨.commit, 0⟩) Database.empty ∧
      (deleteModemMessages modem none ⟨(recordSync manualSync 0 (some ⟨.step .ensureModem, 0⟩)
        (start Database.empty)).2.connection, []⟩).1 = none := by
  refine ⟨fun hclean => ?_, fun hclean => ?_, by decide +kernel⟩
  · exact ((recordSync_clean_iff _ _ manualSync 0).mp hclean).2.2 rfl
  · exact (deleteMessage_clean_iff modem 1 _ _).mp hclean rfl

end QModem.Smsd.Sql
