import QModem.Smsd.Deliveries
import QModem.Smsd.Reassembly

/-!
# What Is a Worker Handed?

A delivery is queued for one revision of a message, but the claim reads the message as it is at the
time of the claim.  When a late part has revised the message in between, the worker of the older
delivery is handed the newer revision, and the worker of the newer delivery is handed it again.

## Main results

- `handover_iff`: workers are handed what was queued exactly when every claim picks a delivery for
  the current revision of its message
- `lateFragment_not_sound`: a revision that is handed out under two deliveries
-/

namespace QModem.Smsd

open Lib Transaction Table List

/-! ## Histories -/

/-- The message of a delivery at the time it was queued. -/
structure Snapshot where
  deliveryId : ℕ
  messageId : ℕ
  content : Text
  complete : Bool
  revision : ℕ
  deriving DecidableEq

/-- The claim shows the message as it was queued. -/
structure Claim.Shows (c : Claim) (q : Snapshot) : Prop where
  message : c.messageId = q.messageId
  content : c.content = q.content
  complete : c.complete = q.complete
  revision : c.revision = q.revision

def Tables.snapshot (t : Tables) (d : Entry Delivery) : Option Snapshot :=
  (t.messageById d.row.messageId).map fun m => {
    deliveryId := d.id
    messageId := m.id
    content := m.row.content
    complete := m.row.complete
    revision := m.row.revision }

def newSnapshots (t u : Tables) : List Snapshot :=
  (u.deliveries.select fun d => !t.deliveries.ids.contains d.id).filterMap u.snapshot

/-- The daemon with the history of what was queued and what was handed out. -/
structure Logged where
  state : State
  queued : List Snapshot
  handed : List Claim

/-- What an operation hands out. -/
def handedBy (s : State) : Op → Option Claim
  | .claim _ clock => s.handOut clock
  | _ => none

/-- Imports, publications, claims and reports. -/
inductive Op.Delivers : Op → Prop where
  | importSegment (segment : SmsSegment) (now : ℤ) (forwarding : Bool) :
      Delivers (.importSegment segment now forwarding)
  | publishExpired (modemId : ModemId) (now : ℤ) (forwarding : Bool) (scan : ScanOrder) :
      Delivers (.publishExpired modemId now forwarding scan)
  | claim (worker : ℕ) (clock : ClaimClock) : Delivers (.claim worker clock)
  | complete (worker deliveryId : ℕ) (success : Bool) (error : Option Text) (now : ℤ) :
      Delivers (.complete worker deliveryId success error now)

namespace Logged

def initial : Logged where
  state := .initial
  queued := []
  handed := []

def step (k : Logged) (op : Op) : Logged where
  state := k.state.step op
  queued := k.queued ++ newSnapshots k.state.db.data (k.state.step op).db.data
  handed := k.handed ++ (handedBy k.state op).toList

/-- Every worker has been handed the message revision its delivery was queued for, and no revision
of a message has been handed out under two deliveries. -/
structure Sound (k : Logged) : Prop where
  queued : ∀ c ∈ k.handed, ∃ q ∈ k.queued, q.deliveryId = c.deliveryId
  shown : ∀ c ∈ k.handed, ∀ q ∈ k.queued, q.deliveryId = c.deliveryId → c.Shows q
  once : ∀ c ∈ k.handed, ∀ c' ∈ k.handed, c.messageId = c'.messageId → c.revision = c'.revision →
    c.deliveryId = c'.deliveryId

/-- The delivery a claim picks is for the current revision of its message. -/
def Careful (k : Logged) (op : Op) : Prop :=
  ∀ c, handedBy k.state op = some c → ∀ d ∈ k.state.db.data.deliveries, d.id = c.deliveryId →
    ∀ m ∈ k.state.db.data.messages, m.id = d.row.messageId → m.row.revision = d.row.revision

end Logged

/-! ## What operations keep -/

/-- Deliveries stay with their message and revision, new ones are for the current revision of a
message, and messages change only together with their revision. -/
structure Forwarded (t u : Tables) : Prop where
  kept : ∀ d ∈ t.deliveries, ∃ d' ∈ u.deliveries, d'.id = d.id ∧
    d'.row.messageId = d.row.messageId ∧ d'.row.revision = d.row.revision
  added : ∀ d ∈ u.deliveries, d.id ∉ t.deliveries.ids → ∃ m ∈ u.messages,
    m.id = d.row.messageId ∧ m.row.revision = d.row.revision
  messages : ∀ m ∈ t.messages, ∃ m' ∈ u.messages, Revised m m'

variable {t u : Tables} {op : Op}

theorem Advanced.forwarded (h : Advanced t u) : Forwarded t u where
  kept d hd := ⟨d, h.kept d hd, rfl, rfl, rfl⟩
  added d hd hnew := by
    rcases h.added d hd with hold | ⟨m, hm⟩
    · exact absurd (mem_ids.mpr ⟨d, hold, rfl⟩) hnew
    · exact ⟨m, hm.mem, hm.message, hm.revision⟩
  messages := h.messages

/-- Updates of deliveries that leave message and revision alone. -/
theorem Forwarded.update (h : Forwarded t u) (hids : u.deliveries.ids = t.deliveries.ids)
    {p : Entry Delivery → Bool} {f : Delivery → Delivery}
    (hf : ∀ x, (f x).messageId = x.messageId ∧ (f x).revision = x.revision) :
    Forwarded t { u with deliveries := u.deliveries.updateWhere p f } where
  -- the row is changed or not, its message and revision never
  kept d hd := by
    obtain ⟨d', hd', hid, hmessage, hrevision⟩ := h.kept d hd
    cases hp : p d' with
    | false => exact ⟨d', mem_updateWhere.mpr (.inl ⟨hd', hp⟩), hid, hmessage, hrevision⟩
    | true =>
      exact ⟨_, mem_updateWhere.mpr (.inr ⟨d', hd', hp, rfl⟩), hid,
        (hf d'.row).1.trans hmessage, (hf d'.row).2.trans hrevision⟩
  added d hd hnew := by
    refine absurd ?_ hnew
    rw [← hids, ← ids_updateWhere u.deliveries p f]
    exact mem_ids.mpr ⟨d, hd, rfl⟩
  messages := h.messages

theorem Forwarded.refl (t : Tables) : Forwarded t t := (Advanced.congr rfl rfl).forwarded

/-- Claims leave message and revision of a delivery alone. -/
theorem Claimed.forwarded {clock : ClaimClock} {r : Option Claim} (h : Claimed clock t r u) :
    Forwarded t u := by
  have hreset : Forwarded t (t.resetExpired clock.reset) := by
    refine (Forwarded.refl t).update rfl ?_
    exact fun _ => ⟨rfl, rfl⟩
  cases h with
  | empty hnext => exact hreset
  | handed c hnext =>
    refine hreset.update (ids_updateWhere _ _ _) ?_
    exact fun _ => ⟨rfl, rfl⟩

theorem forwarded_finishDelivery {deliveryId : ℕ} {success : Bool} {error : Option Text} {now : ℤ} :
    Forwarded t (t.finishDelivery deliveryId success error now) :=
  (Forwarded.refl t).update rfl (Tables.finished_row success error now)

theorem Effect.forwarded {w : Windows} (h : Effect w t op u) (hc : Constraints t)
    (hop : op.Delivers) : Forwarded t u := by
  cases h with
  | unchanged => exact Forwarded.refl t
  | imported h => exact h.advanced.forwarded
  | published h => exact (h.advanced hc (nodup_expiredGroups _)).forwarded
  | claimed worker h => exact h.forwarded
  | completed => exact forwarded_finishDelivery
  | _ => cases hop

/-! ## Snapshots -/

variable {q : Snapshot}

theorem snapshot_eq_some {d : Entry Delivery} (h : t.snapshot d = some q) :
    q.deliveryId = d.id ∧ ∃ m ∈ t.messages, m.id = d.row.messageId ∧ q.messageId = m.id ∧
      q.content = m.row.content ∧ q.complete = m.row.complete ∧ q.revision = m.row.revision := by
  obtain ⟨m, hm, rfl⟩ := Option.map_eq_some_iff.mp h
  obtain ⟨hmem, hid⟩ := mem_of_find? hm
  exact ⟨rfl, m, hmem, of_decide_eq_true hid, rfl, rfl, rfl, rfl⟩

theorem exists_snapshot {d : Entry Delivery} {m : Entry Message} (hm : m ∈ t.messages)
    (hid : m.id = d.row.messageId) : ∃ q, t.snapshot d = some q := by
  rw [Tables.snapshot, Tables.messageById, find?_id hm hid]
  exact ⟨_, rfl⟩

theorem mem_newSnapshots :
    q ∈ newSnapshots t u ↔
      ∃ d ∈ u.deliveries, d.id ∉ t.deliveries.ids ∧ u.snapshot d = some q := by
  simp only [newSnapshots, mem_filterMap, mem_select, Bool.not_eq_true',
    ← Bool.not_eq_true, contains_iff_mem, and_assoc]

/-- The snapshot agrees with the row of its delivery, and with the message as long as that has the
same revision. -/
structure Snapshot.Valid (t : Tables) (q : Snapshot) : Prop where
  delivery : ∃ d ∈ t.deliveries, d.id = q.deliveryId ∧ d.row.messageId = q.messageId ∧
    d.row.revision = q.revision
  message : ∃ m ∈ t.messages, m.id = q.messageId ∧ q.revision ≤ m.row.revision ∧
    (m.row.revision = q.revision → m.row.content = q.content ∧ m.row.complete = q.complete)

/-- A snapshot stays valid: a message that differs from it has a larger revision. -/
theorem Snapshot.Valid.forwarded (h : q.Valid t) (hu : Forwarded t u) : q.Valid u where
  delivery := by
    obtain ⟨d, hd, hid, hmessage, hrevision⟩ := h.delivery
    obtain ⟨d', hd', hid', hmessage', hrevision'⟩ := hu.kept d hd
    exact ⟨d', hd', hid'.trans hid, hmessage'.trans hmessage, hrevision'.trans hrevision⟩
  message := by
    obtain ⟨m, hm, hid, hle, hsame⟩ := h.message
    obtain ⟨m', hm', hid', hle', hsame'⟩ := hu.messages m hm
    refine ⟨m', hm', hid'.trans hid, hle.trans hle', fun hrevision => ?_⟩
    obtain ⟨hcontent, hcomplete⟩ := hsame (by omega)
    obtain ⟨hcontent', hcomplete'⟩ := hsame' (by omega)
    exact ⟨hcontent'.trans hcontent, hcomplete'.trans hcomplete⟩

theorem valid_newSnapshot (hu : Forwarded t u) (hq : q ∈ newSnapshots t u) : q.Valid u := by
  obtain ⟨d, hd, hnew, hsnapshot⟩ := mem_newSnapshots.mp hq
  obtain ⟨hid, m, hm, hmessage, hqm, hcontent, hcomplete, hrevision⟩ := snapshot_eq_some hsnapshot
  obtain ⟨x, hx, hxid, hxrevision⟩ := hu.added d hd hnew
  obtain rfl := eq_of_id_eq hx hm (hxid.trans hmessage.symm)
  refine ⟨⟨d, hd, hid.symm, ?_, ?_⟩, x, hm, hqm.symm, hrevision.le, fun _ => ?_⟩
  · rw [hqm, hmessage]
  · rw [hrevision, hxrevision]
  · exact ⟨hcontent.symm, hcomplete.symm⟩

/-! ## One step -/

namespace Logged

variable {k : Logged}

/-- What holds in every run of imports, publications, claims and reports. -/
structure Consistent (k : Logged) : Prop where
  queued : ∀ d ∈ k.state.db.data.deliveries, ∃ q ∈ k.queued, q.deliveryId = d.id
  valid : ∀ q ∈ k.queued, q.Valid k.state.db.data
  handed : ∀ c ∈ k.handed, ∃ d ∈ k.state.db.data.deliveries, d.id = c.deliveryId ∧
    d.row.messageId = c.messageId

theorem mem_queued_step :
    q ∈ (k.step op).queued ↔ q ∈ k.queued ∨ q ∈ newSnapshots k.state.db.data
      (k.step op).state.db.data :=
  mem_append

theorem mem_handed_step {c : Claim} :
    c ∈ (k.step op).handed ↔ c ∈ k.handed ∨ handedBy k.state op = some c := by
  rw [step, mem_append, Option.mem_toList]

/-- What is handed out is the message of the delivery as it is now. -/
theorem handedBy_eq_some {s : State} {c : Claim} (h : handedBy s op = some c) :
    ∃ d ∈ s.db.data.deliveries, d.id = c.deliveryId ∧
      ∃ m ∈ s.db.data.messages, m.id = d.row.messageId ∧ c.IsOf m := by
  cases op with
  | claim worker clock =>
    obtain ⟨db, -, hclaimed⟩ := State.handOut_eq_some h
    obtain ⟨d, hd, hid, -, hmessage⟩ := hclaimed.handed_from
    exact ⟨d, hd, hid, hmessage⟩
  | _ => cases h

theorem forwarded_step (k : Logged) (hop : op.Delivers) :
    Forwarded k.state.db.data (k.step op).state.db.data :=
  (k.state.step_effect op).forwarded k.state.db.valid hop

/-- Each operation keeps the log in step with the tables. -/
theorem Consistent.step (h : Consistent k) (hop : op.Delivers) : Consistent (k.step op) where
  queued d hd := by
    -- a new delivery has its snapshot taken at this step
    by_cases hnew : d.id ∈ k.state.db.data.deliveries.ids
    · obtain ⟨x, hx, hid⟩ := mem_ids.mp hnew
      obtain ⟨q, hq, hqid⟩ := h.queued x hx
      exact ⟨q, mem_queued_step.mpr (.inl hq), hqid.trans hid⟩
    · obtain ⟨m, hm, hid, -⟩ := (forwarded_step k hop).added d hd hnew
      obtain ⟨q, hq⟩ := exists_snapshot hm hid
      exact ⟨q, mem_queued_step.mpr (.inr (mem_newSnapshots.mpr ⟨d, hd, hnew, hq⟩)),
        (snapshot_eq_some hq).1⟩
  valid q hq := by
    rcases mem_queued_step.mp hq with hq | hq
    · exact (h.valid q hq).forwarded (forwarded_step k hop)
    · exact valid_newSnapshot (forwarded_step k hop) hq
  handed c hc := by
    have hbefore : ∃ d ∈ k.state.db.data.deliveries, d.id = c.deliveryId ∧
        d.row.messageId = c.messageId := by
      rcases mem_handed_step.mp hc with hc | hc
      · exact h.handed c hc
      · obtain ⟨d, hd, hid, m, -, hmessage, hcm, -⟩ := handedBy_eq_some hc
        exact ⟨d, hd, hid, hmessage.symm.trans hcm.symm⟩
    obtain ⟨d, hd, hid, hmessage⟩ := hbefore
    obtain ⟨d', hd', hid', hmessage', -⟩ := (forwarded_step k hop).kept d hd
    exact ⟨d', hd', hid'.trans hid, hmessage'.trans hmessage⟩

/-- A delivery has one row, so what its snapshot says is what the row says. -/
theorem Consistent.delivery_eq (h : Consistent k) (hq : q ∈ k.queued) {d : Entry Delivery}
    (hd : d ∈ k.state.db.data.deliveries) (hid : d.id = q.deliveryId) :
    d.row.messageId = q.messageId ∧ d.row.revision = q.revision := by
  obtain ⟨x, hx, hxid, hmessage, hrevision⟩ := (h.valid q hq).delivery
  rw [eq_of_id_eq hd hx (hid.trans hxid.symm)]
  exact ⟨hmessage, hrevision⟩

/-- Workers that are handed what was queued are never handed one revision twice. -/
theorem Consistent.once (h : Consistent k)
    (hqueued : ∀ c ∈ k.handed, ∃ q ∈ k.queued, q.deliveryId = c.deliveryId)
    (hshown : ∀ c ∈ k.handed, ∀ q ∈ k.queued, q.deliveryId = c.deliveryId → c.Shows q) :
    ∀ c ∈ k.handed, ∀ c' ∈ k.handed, c.messageId = c'.messageId → c.revision = c'.revision →
      c.deliveryId = c'.deliveryId := by
  have hrow : ∀ c ∈ k.handed, ∃ d ∈ k.state.db.data.deliveries, d.id = c.deliveryId ∧
      d.row.messageId = c.messageId ∧ d.row.revision = c.revision := by
    intro c hc
    obtain ⟨q, hq, hid⟩ := hqueued c hc
    obtain ⟨d, hd, hdid, hmessage, hrevision⟩ := (h.valid q hq).delivery
    have hshows := hshown c hc q hq hid
    exact ⟨d, hd, hdid.trans hid, hmessage.trans hshows.message.symm,
      hrevision.trans hshows.revision.symm⟩
  intro c hc c' hc' hmessage hrevision
  obtain ⟨d, hd, hid, hdm, hdr⟩ := hrow c hc
  obtain ⟨d', hd', hid', hdm', hdr'⟩ := hrow c' hc'
  -- message and revision are unique among deliveries
  have hsame : d = d' := k.state.db.valid.deliveries_revision.eq hd hd' rfl
    (by rw [hdm', hdr', ← hmessage, ← hrevision, hdm, hdr])
  rw [← hid, ← hid', hsame]

/-- With a claim for the current revision the worker is shown what was queued. -/
theorem Sound.step (h : Sound k) (hk : Consistent k) (hop : op.Delivers)
    (hcareful : Careful k op) : Sound (k.step op) := by
  have hqueued : ∀ c ∈ (k.step op).handed, ∃ q ∈ (k.step op).queued,
      q.deliveryId = c.deliveryId := by
    intro c hc
    obtain ⟨d, hd, hid, -⟩ := (hk.step hop).handed c hc
    obtain ⟨q, hq, hqid⟩ := (hk.step hop).queued d hd
    exact ⟨q, hq, hqid.trans hid⟩
  have hshown : ∀ c ∈ (k.step op).handed, ∀ q ∈ (k.step op).queued,
      q.deliveryId = c.deliveryId → c.Shows q := by
    intro c hc q hq hid
    -- the delivery of the claim was there before the step, so its snapshot is an old one
    have hold : ∃ d ∈ k.state.db.data.deliveries, d.id = c.deliveryId := by
      rcases mem_handed_step.mp hc with hc | hc
      · obtain ⟨d, hd, hdid, -⟩ := hk.handed c hc
        exact ⟨d, hd, hdid⟩
      · obtain ⟨d, hd, hdid, -⟩ := handedBy_eq_some hc
        exact ⟨d, hd, hdid⟩
    have hq : q ∈ k.queued := by
      rcases mem_queued_step.mp hq with hq | hq
      · exact hq
      · obtain ⟨d, -, hnew, hsnapshot⟩ := mem_newSnapshots.mp hq
        rw [← (snapshot_eq_some hsnapshot).1, hid] at hnew
        exact absurd (mem_ids.mpr hold) hnew
    rcases mem_handed_step.mp hc with hc | hc
    · exact h.shown c hc q hq hid
    · obtain ⟨d, hd, hdid, m, hm, hmd, hcm, hcontent, hcomplete, hrevision⟩ := handedBy_eq_some hc
      obtain ⟨hqm, hqr⟩ := hk.delivery_eq hq hd (hdid.trans hid.symm)
      obtain ⟨x, hx, hxid, -, hsame⟩ := (hk.valid q hq).message
      obtain rfl := eq_of_id_eq hx hm (hxid.trans (hqm.symm.trans hmd.symm))
      have hcurrent : x.row.revision = q.revision :=
        (hcareful c hc d hd hdid x hm hmd).trans hqr
      obtain ⟨hqcontent, hqcomplete⟩ := hsame hcurrent
      exact ⟨hcm.trans hxid, hcontent.trans hqcontent, hcomplete.trans hqcomplete,
        hrevision.trans hcurrent⟩
  exact ⟨hqueued, hshown, (hk.step hop).once hqueued hshown⟩

/-- A claim that hands out what was queued was careful. -/
theorem Consistent.careful (hk : Consistent k) (hafter : Sound (k.step op)) : Careful k op := by
  intro c hc d hd hid m hm hmd
  obtain ⟨q, hq, hqid⟩ := hk.queued d hd
  have hshows := hafter.shown c (mem_handed_step.mpr (.inr hc)) q
    (mem_queued_step.mpr (.inl hq)) (hqid.trans hid)
  obtain ⟨x, hx, hxid, y, hy, hyd, -, -, -, hrevision⟩ := handedBy_eq_some hc
  obtain rfl := eq_of_id_eq hx hd (hxid.trans hid.symm)
  obtain rfl := eq_of_id_eq hy hm (hyd.trans hmd.symm)
  rw [← hrevision, hshows.revision, (hk.delivery_eq hq hd hqid.symm).2]

end Logged

/-! ## Runs -/

/-- **Handover**: in a run of imports, publications, claims and reports, workers are handed exactly
what was queued for them, and no revision twice, if and only if every claim picks a delivery for the
current revision of its message. -/
theorem handover_iff {ops : List Op} (hops : ∀ op ∈ ops, op.Delivers) :
    Throughout Logged.step Logged.Sound Logged.initial ops ↔
      Along Logged.step Logged.Careful Logged.initial ops := by
  refine throughout_iff_along Logged.Consistent ?_ (fun k op hop hk => hk.step (hops op hop)) ?_
    fun k op hop hk h => ⟨hk.careful, h.step hk (hops op hop)⟩
  · refine ⟨fun d hd => absurd hd notMem_empty, fun q hq => ?_, fun c hc => ?_⟩
    · cases hq
    · cases hc
  · refine ⟨fun c hc => ?_, fun c hc => ?_, fun c hc => ?_⟩ <;> cases hc

/-- A careful claim hands out a delivery whose revision is that of its message. -/
theorem careful_of_handed {k : Logged} {worker : ℕ} {clock : ClaimClock} (deliveryId : ℕ)
    (hhanded : (k.state.handOut clock).all (·.deliveryId = deliveryId) = true)
    (h : ∀ d ∈ k.state.db.data.deliveries.rows, d.id = deliveryId →
      ∀ m ∈ k.state.db.data.messages.rows, m.row.revision = d.row.revision) :
    k.Careful (.claim worker clock) := by
  intro c (hc : k.state.handOut clock = some c) d hd hid m hm _
  rw [hc, Option.all_some, decide_eq_true_eq] at hhanded
  exact h d hd (hid.trans hhanded) m hm

/-! ## A late part -/

/-- The first part is published alone and claimed.  Then the second one arrives, and another worker
claims what is queued for the revision. -/
def revisedRun : List Op :=
  [.importSegment partA 1000 true, .publishExpired partA.modemId 1400 true ⟨id, List.Perm.refl⟩,
    .claim 1 ⟨1410, 1410, 1410⟩, .importSegment partB 1500 true, .claim 2 ⟨1510, 1510, 1510⟩]

/-- A message that gets its second part is handed out in both revisions. -/
theorem handover_revised :
    Throughout Logged.step Logged.Sound Logged.initial revisedRun ∧
      (run Logged.step Logged.initial revisedRun).handed.map
          (fun c => (c.deliveryId, c.content, c.revision)) =
        [(1, partA.content, 1), (2, partA.content ++ partB.content, 2)] := by
  refine ⟨(handover_iff ?_).mpr ⟨?_, ?_, ?_, ?_, ?_, trivial⟩, by decide +kernel⟩
  · simp only [revisedRun, mem_cons, not_mem_nil, or_false, forall_eq_or_imp, forall_eq]
    exact ⟨.importSegment _ _ _, .publishExpired _ _ _ _, .claim _ _, .importSegment _ _ _,
      .claim _ _⟩
  · rintro c ⟨⟩
  · rintro c ⟨⟩
  · exact careful_of_handed 1 (by decide +kernel) (by decide +kernel)
  · rintro c ⟨⟩
  · exact careful_of_handed 2 (by decide +kernel) (by decide +kernel)

/-- The first part is published alone, then the second one arrives, and two workers claim. -/
def lateFragmentRun : List Op :=
  [.importSegment partA 1000 true, .publishExpired partA.modemId 1400 true ⟨id, List.Perm.refl⟩,
    .importSegment partB 1500 true, .claim 1 ⟨1600, 1600, 1600⟩, .claim 2 ⟨1610, 1610, 1610⟩]

/-- Both workers are handed the second revision. -/
theorem lateFragment_not_sound :
    (∀ op ∈ lateFragmentRun, op.Delivers) ∧
      ¬ Throughout Logged.step Logged.Sound Logged.initial lateFragmentRun := by
  constructor
  · simp only [lateFragmentRun, mem_cons, not_mem_nil, or_false, forall_eq_or_imp, forall_eq]
    exact ⟨.importSegment _ _ _, .publishExpired _ _ _ _, .importSegment _ _ _, .claim _ _,
      .claim _ _⟩
  · intro h
    have htwice : ∃ c ∈ (run Logged.step Logged.initial lateFragmentRun).handed,
        ∃ c' ∈ (run Logged.step Logged.initial lateFragmentRun).handed,
          c.messageId = c'.messageId ∧ c.revision = c'.revision ∧ c.deliveryId ≠ c'.deliveryId := by
      decide +kernel
    obtain ⟨c, hc, c', hc', hmessage, hrevision, hne⟩ := htwice
    exact hne (h.last.once c hc c' hc' hmessage hrevision)

end QModem.Smsd
