import QModem.Smsd.System

/-!
# What the Operations Do

Each operation that succeeds changes the tables in one of a few ways.  The lemmas of this module
say which, so that no later proof has to look into a transaction.
-/

namespace QModem.Smsd

open Lib Transaction

variable {s s' : Database}

/-! ## Publishing a group -/

namespace Tables

variable (t : Tables)

def queued (forwarding : Bool) (messageId revision : ℕ) (now : ℤ) : Tables :=
  { t with
    deliveries :=
      if forwarding then (t.insertDelivery messageId revision now).deliveries else t.deliveries }

def published (g : Entry Group) (now : ℤ) (forwarding : Bool) : Tables :=
  match t.messageOfGroup g.id with
  | some m =>
    if m.row.content = t.groupContent g.id ∧ m.row.complete = t.hasAllParts g then t
    else (t.reviseMessage m.id (t.groupContent g.id) (t.hasAllParts g) (m.row.revision + 1)
      now).queued forwarding m.id (m.row.revision + 1) now
  | none =>
    (t.insertMessage (groupMessage t g (t.hasAllParts g) now)).queued forwarding t.messages.nextId 1
      now

end Tables

/-- A delivery is queued only if messages are forwarded. -/
theorem queueDelivery_eq_some {forwarding : Bool} {messageId revision : ℕ} {now : ℤ} {u : Unit}
    (h : queueDelivery forwarding messageId revision now s = some (u, s')) :
    s'.data = s.data.queued forwarding messageId revision now := by
  cases forwarding with
  | false =>
    obtain ⟨-, rfl⟩ := pure_eq_some.mp h
    rfl
  | true =>
    simp only [queueDelivery, if_true] at h
    exact exec_eq_some.mp h

theorem find?_id {α : Type} {t : Table α} {n : ℕ} {e : Entry α} (he : e ∈ t) (hid : e.id = n) :
    t.find? (·.id = n) = some e :=
  Table.find?_eq_some_of_unique he (by simp [hid]) fun x _ hx => by
    simpa [hid] using hx

/-- **Publishing**: what `publish_group` has done when it succeeds. -/
theorem publishGroup_eq_some {groupId : ℕ} {now : ℤ} {forwarding : Bool} {r : Published}
    (h : publishGroup groupId now forwarding s = some (r, s')) :
    ∃ g ∈ s.data.groups, g.id = groupId ∧ s'.data = s.data.published g now forwarding := by
  simp only [publishGroup, query_bind] at h
  cases hfind : s.data.groups.find? (·.id = groupId) with
  | none =>
    rw [hfind] at h
    cases rollback_eq_some.mp h
  | some g =>
    obtain ⟨hg, hid⟩ := Table.mem_of_find? hfind
    obtain rfl : g.id = groupId := by simpa using hid
    refine ⟨g, hg, rfl, ?_⟩
    simp only [hfind, query_bind] at h
    unfold Tables.published
    -- the group has a message already, which is revised if it differs, or gets one
    cases hm : s.data.messageOfGroup g.id with
    | some m =>
      simp only [hm] at h ⊢
      split at h
      · rename_i hsame
        obtain ⟨-, rfl⟩ := pure_eq_some.mp h
        rw [if_pos hsame]
      · rename_i hchanged
        obtain ⟨_, u, hrevise, h⟩ := bind_eq_some.mp h
        obtain ⟨_, v, hqueue, h⟩ := bind_eq_some.mp h
        obtain ⟨-, rfl⟩ := pure_eq_some.mp h
        rw [if_neg hchanged, queueDelivery_eq_some hqueue, exec_eq_some.mp hrevise]
    | none =>
      simp only [hm, query_bind] at h ⊢
      obtain ⟨_, u, hinsert, h⟩ := bind_eq_some.mp h
      obtain ⟨_, v, hqueue, h⟩ := bind_eq_some.mp h
      obtain ⟨-, rfl⟩ := pure_eq_some.mp h
      rw [queueDelivery_eq_some hqueue, exec_eq_some.mp hinsert]

/-! ## Importing a segment -/

namespace Tables

variable (t : Tables)

/-- The tables with a row for a new source. -/
def registered (segment : SmsSegment) (now : ℤ) : Tables :=
  (t.ensureModem segment.modemId).insertSource segment now

def withPart (segment : SmsSegment) (groupId sourceId : ℕ) (now : ℤ) : Tables :=
  (t.insertSegment segment groupId sourceId).touchGroup groupId now

end Tables

/-- The group `find_group` chooses, and the tables with it. -/
inductive GroupFor (w : Windows) (segment : SmsSegment) (now : ℤ) (t : Tables) :
    ℕ → Tables → Prop where
  | found (g : Entry Group) (hlookup : t.lookupGroup w segment now = some g) :
      GroupFor w segment now t g.id t
  | created (hlookup : t.lookupGroup w segment now = none)
      (hvalid : Constraints (t.insertGroup segment now)) :
      GroupFor w segment now t t.groups.nextId (t.insertGroup segment now)

/-- What a successful import of a part leaves behind, before its source is committed. -/
inductive PartStored (w : Windows) (segment : SmsSegment) (sourceId : ℕ) (now : ℤ)
    (forwarding : Bool) (t : Tables) : Tables → Prop where
  | waiting {groupId : ℕ} {u : Tables} (hgroup : GroupFor w segment now t groupId u)
      (hcount : ¬ segment.total ≤ (u.withPart segment groupId sourceId now).partCount groupId) :
      PartStored w segment sourceId now forwarding t (u.withPart segment groupId sourceId now)
  | published {groupId : ℕ} {u : Tables} (hgroup : GroupFor w segment now t groupId u)
      (hvalid : Constraints (u.withPart segment groupId sourceId now))
      (hcount : segment.total ≤ (u.withPart segment groupId sourceId now).partCount groupId)
      (g : Entry Group) (hg : g ∈ (u.withPart segment groupId sourceId now).groups)
      (hid : g.id = groupId) :
      PartStored w segment sourceId now forwarding t
        ((u.withPart segment groupId sourceId now).published g now forwarding)

/-- What a successful import leaves behind. -/
inductive Imported (w : Windows) (segment : SmsSegment) (now : ℤ) (forwarding : Bool) (t : Tables)
    (r : ImportResult) : Tables → Prop where
  /-- The same source has been imported before. -/
  | duplicate (source : Entry Source) (hsource : t.sourceOf segment = some source)
      (hdup : r.duplicate = true) :
      Imported w segment now forwarding t r
        ((t.ensureModem segment.modemId).touchSource source.id now)
  | single (hnew : t.sourceOf segment = none) (hone : ¬ 1 < segment.total)
      (hdup : r.duplicate = false) :
      Imported w segment now forwarding t r
        ((((t.registered segment now).insertMessage (singleMessage segment now)).queued forwarding
          t.messages.nextId 1 now).commitSource t.sources.nextId)
  | part {u : Tables} (hnew : t.sourceOf segment = none) (hmany : 1 < segment.total)
      (hdup : r.duplicate = false) (hlow : 1 ≤ segment.partNumber)
      (hhigh : segment.partNumber ≤ segment.total)
      (hvalid : Constraints (t.registered segment now))
      (hstored : PartStored w segment t.sources.nextId now forwarding
        (t.registered segment now) u) :
      Imported w segment now forwarding t r (u.commitSource t.sources.nextId)

variable {w : Windows} {segment : SmsSegment} {now : ℤ} {forwarding : Bool}

/-- The group for a segment is an old one that fits, or a new one. -/
theorem findGroup_eq_some {groupId : ℕ} (h : findGroup w segment now s = some (groupId, s')) :
    GroupFor w segment now s.data groupId s'.data := by
  simp only [findGroup, query_bind] at h
  cases hlookup : s.data.lookupGroup w segment now with
  | some g =>
    simp only [hlookup] at h
    obtain ⟨rfl, rfl⟩ := pure_eq_some.mp h
    exact .found g hlookup
  -- the constraints of the store hold with the new group, too
  | none =>
    simp only [hlookup, query_bind] at h
    obtain ⟨_, u, hinsert, h⟩ := bind_eq_some.mp h
    obtain ⟨rfl, rfl⟩ := pure_eq_some.mp h
    have hdata := exec_eq_some.mp hinsert
    rw [hdata]
    exact .created hlookup (hdata ▸ u.valid)

/-- A part is stored within its range, and the group published when it is complete. -/
theorem storePart_eq_some {sourceId : ℕ} {r : Option Published}
    (h : storePart w segment sourceId now forwarding s = some (r, s')) :
    1 ≤ segment.partNumber ∧ segment.partNumber ≤ segment.total ∧
      PartStored w segment sourceId now forwarding s.data s'.data := by
  unfold storePart at h
  split at h
  · cases rollback_eq_some.mp h
  rename_i hrange
  rw [not_or, not_lt, not_lt] at hrange
  -- find the group, insert the part, update the time of the group
  obtain ⟨groupId, a, hgroup, h⟩ := bind_eq_some.mp h
  obtain ⟨_, b, hinsert, h⟩ := bind_eq_some.mp h
  obtain ⟨_, c, htouch, h⟩ := bind_eq_some.mp h
  have hdata : c.data = a.data.withPart segment groupId sourceId now := by
    rw [exec_eq_some.mp htouch, exec_eq_some.mp hinsert]
    rfl
  rw [query_bind] at h
  refine ⟨hrange.1, hrange.2, ?_⟩
  rw [hdata] at h
  split at h
  · rename_i hcount
    obtain ⟨p, d, hpublish, h⟩ := bind_eq_some.mp h
    obtain ⟨-, rfl⟩ := pure_eq_some.mp h
    obtain ⟨g, hg, hid, hpublished⟩ := publishGroup_eq_some hpublish
    rw [hpublished, hdata]
    exact .published (findGroup_eq_some hgroup) (hdata ▸ c.valid) hcount g (hdata ▸ hg) hid
  · rename_i hcount
    obtain ⟨-, rfl⟩ := pure_eq_some.mp h
    rw [hdata]
    exact .waiting (findGroup_eq_some hgroup) hcount

/-- **Importing**: what `sms_db_import_segment` has done when it succeeds. -/
theorem importSegment_eq_some {r : ImportResult}
    (h : importSegment w segment now forwarding s = some (r, s')) :
    Imported w segment now forwarding s.data r s'.data := by
  unfold importSegment at h
  split at h
  · cases rollback_eq_some.mp h
  obtain ⟨_, a, hensure, h⟩ := bind_eq_some.mp h
  have ha : a.data = s.data.ensureModem segment.modemId := exec_eq_some.mp hensure
  have hlookup : a.data.sourceOf segment = s.data.sourceOf segment := by rw [ha]; rfl
  rw [query_bind, hlookup] at h
  -- known by its fingerprint, or new
  cases hsource : s.data.sourceOf segment with
  | some source =>
    simp only [hsource] at h
    obtain ⟨_, b, htouch, h⟩ := bind_eq_some.mp h
    obtain ⟨rfl, rfl⟩ := pure_eq_some.mp h
    rw [exec_eq_some.mp htouch, ha]
    exact .duplicate source hsource rfl
  | none =>
    simp only [hsource, query_bind] at h
    obtain ⟨_, b, hinsert, h⟩ := bind_eq_some.mp h
    obtain ⟨p, c, hstore, h⟩ := bind_eq_some.mp h
    obtain ⟨_, d, hcommit, h⟩ := bind_eq_some.mp h
    obtain ⟨rfl, rfl⟩ := pure_eq_some.mp h
    have hid : a.data.sources.nextId = s.data.sources.nextId := by rw [ha]; rfl
    have hb : b.data = s.data.registered segment now := by
      rw [exec_eq_some.mp hinsert, ha]
      rfl
    rw [hid] at hstore hcommit
    rw [exec_eq_some.mp hcommit]
    unfold storeSegment at hstore
    split at hstore
    · rename_i hmany
      obtain ⟨hlow, hhigh, hpart⟩ := storePart_eq_some hstore
      rw [hb] at hpart
      exact .part hsource hmany rfl hlow hhigh (hb ▸ b.valid) hpart
    · rename_i hone
      obtain ⟨q, e, hsingle, hstore⟩ := bind_eq_some.mp hstore
      obtain ⟨-, rfl⟩ := pure_eq_some.mp hstore
      simp only [insertSingleMessage, query_bind] at hsingle
      obtain ⟨_, f, hmessage, hsingle⟩ := bind_eq_some.mp hsingle
      obtain ⟨_, g, hqueue, hsingle⟩ := bind_eq_some.mp hsingle
      obtain ⟨-, rfl⟩ := pure_eq_some.mp hsingle
      rw [queueDelivery_eq_some hqueue, exec_eq_some.mp hmessage, hb]
      exact .single hsource hone rfl

/-! ## Publishing expired groups -/

/-- What the loop of `sms_db_publish_expired` leaves behind. -/
inductive PublishedAll (now : ℤ) (forwarding : Bool) : List ℕ → Tables → Tables → Prop where
  | nil (t : Tables) : PublishedAll now forwarding [] t t
  | cons {rest : List ℕ} {t u : Tables} (g : Entry Group) (hg : g ∈ t.groups)
      (hvalid : Constraints (t.published g now forwarding))
      (hrest : PublishedAll now forwarding rest (t.published g now forwarding) u) :
      PublishedAll now forwarding (g.id :: rest) t u

/-- The groups are published one after the other, in the order of the list. -/
theorem publishGroups_eq_some {ids : List ℕ} {n : ℕ}
    (h : publishGroups now forwarding ids s = some (n, s')) :
    PublishedAll now forwarding ids s.data s'.data := by
  induction ids generalizing s n with
  | nil =>
    obtain ⟨-, rfl⟩ := pure_eq_some.mp h
    exact .nil _
  | cons groupId rest ih =>
    obtain ⟨p, a, hpublish, h⟩ := bind_eq_some.mp h
    obtain ⟨m, b, hrest, h⟩ := bind_eq_some.mp h
    obtain ⟨-, rfl⟩ := pure_eq_some.mp h
    obtain ⟨g, hg, rfl, hdata⟩ := publishGroup_eq_some hpublish
    exact .cons g hg (hdata ▸ a.valid) (hdata ▸ ih hrest)

theorem publishExpired_eq_some {modemId : ModemId} {scan : ScanOrder} {n : ℕ}
    (h : publishExpired w modemId now forwarding scan s = some (n, s')) :
    PublishedAll now forwarding (scan.order (s.data.expiredGroups w modemId now)) s.data s'.data :=
  publishGroups_eq_some h

/-! ## Removing messages -/

namespace Tables

variable (t : Tables)

/-- The tables after retention has been applied to the messages. -/
def withinLimits (modemId : ModemId) (receivedLimit sentLimit : ℤ) : Tables :=
  (t.pruneDirection modemId .received receivedLimit).pruneDirection modemId .sent sentLimit

/-- The tables without groups and sources that are not needed any more. -/
def withoutOrphans (before : ℤ) (clock : PruneClock) : Tables :=
  (((t.deleteOrphanSegments before).deleteOrphanGroups before).deleteStaleSources
    clock.sources).deleteOldRuns clock.runs

/-- The tables without one message and, if it has one, its group. -/
def withoutMessage (modemId : ModemId) (messageId : ℕ) : Tables :=
  let u := t.deleteMessages fun m => m.id = messageId && m.row.modemId = modemId
  match (t.messages.find? fun m => m.id = messageId && m.row.modemId = modemId).bind
      (·.row.groupId) with
  | some groupId => (u.deleteSegmentsOf groupId).deleteGroup groupId
  | none => u

def withoutModemMessages (modemId : ModemId) : Tables :=
  ((t.deleteMessages (·.row.modemId = modemId)).deleteModemSegments modemId).deleteModemGroups modemId

end Tables

variable {modemId : ModemId}

/-- Retention applies the limits first and then cleans up. -/
theorem prune_eq_some {receivedLimit sentLimit : ℤ} {clock : PruneClock} {u : Unit}
    (h : prune w modemId receivedLimit sentLimit clock s = some (u, s')) :
    1 ≤ receivedLimit ∧ 1 ≤ sentLimit ∧
      s'.data = (s.data.withinLimits modemId receivedLimit sentLimit).withoutOrphans
        (orphanBefore w clock) clock := by
  unfold prune at h
  split at h
  · cases rollback_eq_some.mp h
  -- the six statements of the source, one after the other
  obtain ⟨_, a, ha, h⟩ := bind_eq_some.mp h
  obtain ⟨_, b, hb, h⟩ := bind_eq_some.mp h
  obtain ⟨_, c, hc, h⟩ := bind_eq_some.mp h
  obtain ⟨_, d, hd, h⟩ := bind_eq_some.mp h
  obtain ⟨_, e, he, h⟩ := bind_eq_some.mp h
  refine ⟨by omega, by omega, ?_⟩
  rw [exec_eq_some.mp h, exec_eq_some.mp he, exec_eq_some.mp hd, exec_eq_some.mp hc,
    exec_eq_some.mp hb, exec_eq_some.mp ha]
  rfl

/-- A message is deleted together with its group and the parts of it. -/
theorem deleteMessage_eq_some {messageId n : ℕ}
    (h : deleteMessage modemId messageId s = some (n, s')) :
    s'.data = s.data.withoutMessage modemId messageId := by
  simp only [deleteMessage, query_bind] at h
  obtain ⟨_, a, ha, h⟩ := bind_eq_some.mp h
  unfold Tables.withoutMessage
  -- only a message of several parts has a group
  cases hgroup : (s.data.messages.find? fun m => m.id = messageId && m.row.modemId = modemId).bind
      (·.row.groupId) with
  | none =>
    simp only [hgroup] at h ⊢
    obtain ⟨-, rfl⟩ := pure_eq_some.mp h
    exact exec_eq_some.mp ha
  | some groupId =>
    simp only [hgroup] at h ⊢
    obtain ⟨_, b, hb, h⟩ := bind_eq_some.mp h
    obtain ⟨_, c, hc, h⟩ := bind_eq_some.mp h
    obtain ⟨-, rfl⟩ := pure_eq_some.mp h
    rw [exec_eq_some.mp hc, exec_eq_some.mp hb, exec_eq_some.mp ha]

theorem deleteModemMessages_eq_some {n : ℕ} (h : deleteModemMessages modemId s = some (n, s')) :
    s'.data = s.data.withoutModemMessages modemId := by
  simp only [deleteModemMessages, query_bind] at h
  obtain ⟨_, a, ha, h⟩ := bind_eq_some.mp h
  obtain ⟨_, b, hb, h⟩ := bind_eq_some.mp h
  obtain ⟨_, c, hc, h⟩ := bind_eq_some.mp h
  obtain ⟨-, rfl⟩ := pure_eq_some.mp h
  rw [exec_eq_some.mp hc, exec_eq_some.mp hb, exec_eq_some.mp ha]
  rfl

/-! ## Forwarding -/

/-- What a claim leaves behind. -/
inductive Claimed (clock : ClaimClock) (t : Tables) : Option Claim → Tables → Prop where
  | empty (hnext : (t.resetExpired clock.reset).nextDelivery clock.select = none) :
      Claimed clock t none (t.resetExpired clock.reset)
  | handed (c : Claim) (hnext : (t.resetExpired clock.reset).nextDelivery clock.select = some c) :
      Claimed clock t (some c) ((t.resetExpired clock.reset).markClaimed c.deliveryId clock.update)

/-- A claim frees what has expired and then takes the next delivery. -/
theorem claimDelivery_eq_some {clock : ClaimClock} {r : Option Claim}
    (h : claimDelivery clock s = some (r, s')) : Claimed clock s.data r s'.data := by
  unfold claimDelivery at h
  obtain ⟨_, a, ha, h⟩ := bind_eq_some.mp h
  rw [query_bind, exec_eq_some.mp ha] at h
  -- the queue may be empty
  cases hnext : (s.data.resetExpired clock.reset).nextDelivery clock.select with
  | none =>
    simp only [hnext] at h
    obtain ⟨rfl, rfl⟩ := pure_eq_some.mp h
    rw [exec_eq_some.mp ha]
    exact .empty hnext
  | some c =>
    simp only [hnext] at h
    obtain ⟨_, b, hb, h⟩ := bind_eq_some.mp h
    obtain ⟨rfl, rfl⟩ := pure_eq_some.mp h
    rw [exec_eq_some.mp hb, exec_eq_some.mp ha]
    exact .handed c hnext

theorem completeDelivery_eq_some {deliveryId : ℕ} {success : Bool} {error : Option Text} {u : Unit}
    (h : completeDelivery deliveryId success error now s = some (u, s')) :
    s'.data = s.data.finishDelivery deliveryId success error now := by
  unfold completeDelivery at h
  split at h
  · cases rollback_eq_some.mp h
  · exact exec_eq_some.mp h

/-! ## All operations -/

/-- What an operation leaves behind: nothing when it fails, otherwise one of these changes. -/
inductive Effect (w : Windows) (t : Tables) : Op → Tables → Prop where
  | unchanged (op : Op) : Effect w t op t
  | imported {segment : SmsSegment} {now : ℤ} {forwarding : Bool} {r : ImportResult} {u : Tables}
      (h : Imported w segment now forwarding t r u) :
      Effect w t (.importSegment segment now forwarding) u
  | published {modemId : ModemId} {now : ℤ} {forwarding : Bool} {scan : ScanOrder} {u : Tables}
      (h : PublishedAll now forwarding (scan.order (t.expiredGroups w modemId now)) t u) :
      Effect w t (.publishExpired modemId now forwarding scan) u
  | scanned (modemId : ModemId) (storage : Text) (startedAt : ℤ) :
      Effect w t (.finishScan modemId storage startedAt) (t.forgetUnseen modemId storage startedAt)
  | pruned (modemId : ModemId) {receivedLimit sentLimit : ℤ} (clock : PruneClock)
      (hreceived : 1 ≤ receivedLimit) (hsent : 1 ≤ sentLimit) :
      Effect w t (.prune modemId receivedLimit sentLimit clock)
        ((t.withinLimits modemId receivedLimit sentLimit).withoutOrphans (orphanBefore w clock) clock)
  | sourceDeleted (sourceId : ℕ) (deletedAt : ℤ) :
      Effect w t (.markSourceDeleted sourceId deletedAt) (t.markDeleted sourceId deletedAt)
  | messageDeleted (modemId : ModemId) (messageId : ℕ) :
      Effect w t (.deleteMessage modemId messageId) (t.withoutMessage modemId messageId)
  | modemDeleted (modemId : ModemId) :
      Effect w t (.deleteModemMessages modemId) (t.withoutModemMessages modemId)
  | syncRecorded (syncRun : SyncRun) (syncedAt : ℤ) (modems : Table Modem)
      (syncRuns : Table SyncRun) :
      Effect w t (.recordSync syncRun syncedAt) { t with modems, syncRuns }
  | eventRecorded (modemId : ModemId) (epoch sequence : ℤ) (modems : Table Modem) :
      Effect w t (.recordEvent modemId epoch sequence) { t with modems }
  | messageAdded (message : LooseMessage) (now : ℤ) :
      Effect w t (.addLooseMessage message now) (t.insertMessage (message.message now))
  | messageRead (modemId : ModemId) (messageId : ℕ) (now : ℤ) :
      Effect w t (.markRead modemId messageId now) (t.setRead modemId messageId now)
  | claimed (worker : ℕ) {clock : ClaimClock} {r : Option Claim} {u : Tables}
      (h : Claimed clock t r u) : Effect w t (.claim worker clock) u
  | completed (worker deliveryId : ℕ) (success : Bool) (error : Option Text) (now : ℤ) :
      Effect w t (.complete worker deliveryId success error now)
        (t.finishDelivery deliveryId success error now)

/-- A property of the database holds after a transaction when it holds of every possible outcome. -/
theorem State.commit_induction {s : State} {α : Type} {tx : Tx α} {p : Database → Prop}
    (hold : p s.db) (hnew : ∀ r db, tx s.db = some (r, db) → p db) : p (s.commit tx).db := by
  unfold State.commit
  split
  · rename_i r db heq
    exact hnew r db heq
  · exact hold

theorem State.commit_effect {s : State} {op : Op} {α : Type} {tx : Tx α}
    (hnew : ∀ r db, tx s.db = some (r, db) → Effect s.windows s.db.data op db.data) :
    Effect s.windows s.db.data op (s.commit tx).db.data :=
  State.commit_induction (p := fun db => Effect _ s.db.data _ db.data) (.unchanged op) hnew

/-- **Every step** has one of the effects. -/
theorem State.step_effect (s : State) (op : Op) :
    Effect s.windows s.db.data op (s.step op).db.data := by
  -- each operation is one transaction; if it fails nothing has changed
  cases op with
  | importSegment segment now forwarding =>
    exact State.commit_effect fun r db heq => .imported (importSegment_eq_some heq)
  | publishExpired modemId now forwarding scan =>
    exact State.commit_effect fun r db heq => .published (publishExpired_eq_some heq)
  | finishScan modemId storage startedAt =>
    refine State.commit_effect fun r db heq => ?_
    rw [exec_eq_some.mp heq]
    exact .scanned modemId storage startedAt
  | prune modemId receivedLimit sentLimit clock =>
    refine State.commit_effect fun r db heq => ?_
    obtain ⟨hreceived, hsent, hdata⟩ := prune_eq_some heq
    rw [hdata]
    exact .pruned modemId clock hreceived hsent
  | markSourceDeleted sourceId deletedAt =>
    refine State.commit_effect fun r db heq => ?_
    rw [exec_eq_some.mp heq]
    exact .sourceDeleted sourceId deletedAt
  | deleteMessage modemId messageId =>
    refine State.commit_effect fun r db heq => ?_
    rw [deleteMessage_eq_some heq]
    exact .messageDeleted modemId messageId
  | deleteModemMessages modemId =>
    refine State.commit_effect fun r db heq => ?_
    rw [deleteModemMessages_eq_some heq]
    exact .modemDeleted modemId
  | recordSync syncRun syncedAt =>
    refine State.commit_effect fun r db heq => ?_
    obtain ⟨_, a, ha, heq⟩ := bind_eq_some.mp heq
    obtain ⟨_, b, hb, heq⟩ := bind_eq_some.mp heq
    rw [exec_eq_some.mp heq, exec_eq_some.mp hb, exec_eq_some.mp ha]
    exact .syncRecorded syncRun syncedAt _ _
  | recordEvent modemId epoch sequence =>
    refine State.commit_effect fun r db heq => ?_
    obtain ⟨_, a, ha, heq⟩ := bind_eq_some.mp heq
    rw [query_bind] at heq
    obtain ⟨_, b, hb, heq⟩ := bind_eq_some.mp heq
    obtain ⟨-, rfl⟩ := pure_eq_some.mp heq
    rw [exec_eq_some.mp hb, exec_eq_some.mp ha]
    exact .eventRecorded modemId epoch sequence _
  | setMultipartWindows waitSeconds lateSeconds => exact .unchanged _
  | addLooseMessage message now =>
    refine State.commit_effect fun r db heq => ?_
    rw [exec_eq_some.mp heq]
    exact .messageAdded message now
  | markRead modemId messageId now =>
    refine State.commit_effect fun r db heq => ?_
    rw [exec_eq_some.mp heq]
    exact .messageRead modemId messageId now
  | claim worker clock =>
    exact State.commit_effect fun r db heq => .claimed worker (claimDelivery_eq_some heq)
  | complete worker deliveryId success error now =>
    refine State.commit_effect fun r db heq => ?_
    rw [completeDelivery_eq_some heq]
    exact .completed worker deliveryId success error now

end QModem.Smsd
