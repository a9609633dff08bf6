import QModem.Smsd.Reassembly

/-!
# Is Removal Final?

A message of several parts is removed by a delete request or by retention.  A delete request removes
its group and segments with it.  Retention removes them only when the last part is old enough; until
then `sms_db_publish_expired` finds a group without a message and publishes it once more.

What has been removed is known by its sources, the messages on the modem that its parts were read
from: a new group that collects the same sources again has the same content.

## Main results

- `Effect.keeps`: where segments and sources come from in one step
- `removal_final`: when a removed message stays away in every run
- `prunedMessage_returns`: a message that comes back after retention has removed it
-/

namespace QModem.Smsd

open Lib Transaction Table

/-- Retention and delete requests. -/
inductive Op.Removes : Op → Prop where
  | prune (modemId : ModemId) (receivedLimit sentLimit : ℤ) (clock : PruneClock) :
      Removes (.prune modemId receivedLimit sentLimit clock)
  | deleteMessage (modemId : ModemId) (messageId : ℕ) : Removes (.deleteMessage modemId messageId)
  | deleteModemMessages (modemId : ModemId) : Removes (.deleteModemMessages modemId)

abbrev Fingerprint := ModemId × Text × ℤ × Text

/-- The sources that the segments of a group were read from. -/
def Tables.sourcesOf (t : Tables) (groupId : ℕ) : List Fingerprint :=
  (t.sources.select fun x =>
    t.segments.rows.any fun e => e.row.groupId = groupId && e.row.sourceId = x.id).map
      (·.row.fingerprint)

/-- The segment was read from one of the sources. -/
def HeldFrom (sources : List Fingerprint) (t : Tables) (e : Entry Segment) : Prop :=
  ∃ x ∈ t.sources, e.row.sourceId = x.id ∧ x.row.fingerprint ∈ sources

instance (sources : List Fingerprint) (t : Tables) (e : Entry Segment) :
    Decidable (HeldFrom sources t e) :=
  inferInstanceAs (Decidable (∃ x ∈ t.sources.rows, _))

/-- There is a message with the content of one of the sources.  A delivery belongs to a message, so
without one nothing is forwarded either. -/
def Returned (sources : List Fingerprint) (t : Tables) : Prop :=
  ∃ m ∈ t.messages, ∃ e ∈ t.segments, m.row.groupId = some e.row.groupId ∧ HeldFrom sources t e

instance (sources : List Fingerprint) (t : Tables) : Decidable (Returned sources t) :=
  inferInstanceAs (Decidable (∃ m ∈ t.messages.rows, ∃ e ∈ t.segments.rows, _))

/-- Retention comes late enough to take the group with the message. -/
def Clears (s : State) (g : Entry Group) : Op → Prop
  | .prune _ _ _ clock => g.row.lastSeen < orphanBefore s.windows clock
  | _ => True

/-- When one of the sources is imported again, it is known. -/
def Known (sources : List Fingerprint) (s : State) : Op → Prop
  | .importSegment segment _ _ =>
    segment.fingerprint ∈ sources → (s.db.data.sourceOf segment).isSome = true
  | _ => True

variable {t u : Tables} {s : State} {g : Entry Group} {op : Op} {groupId : ℕ} {modemId : ModemId}
  {sources : List Fingerprint}

/-! ## Where segments come from -/

/-- No segment is new, and every source has the fingerprint it had. -/
structure Keeps (u t : Tables) : Prop where
  segments : ∀ e ∈ u.segments, e ∈ t.segments
  sources : ∀ x ∈ u.sources, ∃ y ∈ t.sources, y.id = x.id ∧ y.row.fingerprint = x.row.fingerprint

theorem Keeps.congr (hsegments : u.segments = t.segments) (hsources : u.sources = t.sources) :
    Keeps u t where
  segments _ he := hsegments ▸ he
  sources x hx := ⟨x, hsources ▸ hx, rfl, rfl⟩

theorem keeps_updateSources {p : Entry Source → Bool} {f : Source → Source}
    (hf : ∀ x, (f x).fingerprint = x.fingerprint) :
    Keeps { t with sources := t.sources.updateWhere p f } t where
  segments _ he := he
  sources x hx := by
    rcases mem_updateWhere.mp hx with ⟨hx, -⟩ | ⟨y, hy, -, rfl⟩
    · exact ⟨x, hx, rfl, rfl⟩
    · exact ⟨y, hy, rfl, (hf y.row).symm⟩

theorem Keeps.trans {v : Tables} (h : Keeps v u) (h' : Keeps u t) : Keeps v t where
  segments e he := h'.segments e (h.segments e he)
  sources x hx := by
    obtain ⟨y, hy, hid, hprint⟩ := h.sources x hx
    obtain ⟨z, hz, hid', hprint'⟩ := h'.sources y hy
    exact ⟨z, hz, hid'.trans hid, hprint'.trans hprint⟩

theorem PublishedAll.segments {now : ℤ} {forwarding : Bool} {ids : List ℕ}
    (h : PublishedAll now forwarding ids t u) : u.segments = t.segments := by
  induction h with
  | nil => rfl
  | cons x hx hvalid _ ih => rw [ih, published_segments]

/-- What an import adds: a source, and a segment that was read from it. -/
structure Adds (segment : SmsSegment) (u t : Tables) (new : Entry Segment) : Prop where
  unknown : t.sourceOf segment = none
  source : new.row.sourceId = t.sources.nextId
  segments : ∀ e ∈ u.segments, e ∈ t.segments ∨ e = new
  sources : ∀ x ∈ u.sources,
    (∃ y ∈ t.sources, y.id = x.id ∧ y.row.fingerprint = x.row.fingerprint) ∨
      x.id = t.sources.nextId ∧ x.row.fingerprint = segment.fingerprint

theorem sources_registered (segment : SmsSegment) (now : ℤ) :
    ∀ x ∈ (t.registered segment now).sources,
      (∃ y ∈ t.sources, y.id = x.id ∧ y.row.fingerprint = x.row.fingerprint) ∨
        x.id = t.sources.nextId ∧ x.row.fingerprint = segment.fingerprint := by
  intro x hx
  rcases mem_insert.mp hx with hx | rfl
  · exact .inl ⟨x, hx, rfl, rfl⟩
  · exact .inr ⟨rfl, rfl⟩

theorem Adds.keeps {segment : SmsSegment} {v : Tables} {new : Entry Segment}
    (h : Adds segment u t new) (hkeeps : Keeps v u) : Adds segment v t new where
  unknown := h.unknown
  source := h.source
  segments e he := h.segments e (hkeeps.segments e he)
  sources x hx := by
    obtain ⟨y, hy, hid, hprint⟩ := hkeeps.sources x hx
    rw [← hid, ← hprint]
    exact h.sources y hy

/-- A part is added to the segments, unless its place is taken. -/
theorem PartStored.segments {w : Windows} {segment : SmsSegment} {sourceId : ℕ} {now : ℤ}
    {forwarding : Bool} (h : PartStored w segment sourceId now forwarding t u) :
    ∃ new : Entry Segment, new.row.sourceId = sourceId ∧
      ∀ e ∈ u.segments, e ∈ t.segments ∨ e = new := by
  -- publishing leaves the segments alone, so both cases are the same
  have hpart : ∀ {groupId : ℕ} {v : Tables}, GroupFor w segment now t groupId v →
      ∃ new : Entry Segment, new.row.sourceId = sourceId ∧
        ∀ e ∈ (v.withPart segment groupId sourceId now).segments, e ∈ t.segments ∨ e = new := by
    intro groupId v hgroup
    refine ⟨⟨v.segments.nextId, segment.asPart groupId sourceId⟩, rfl, fun e he => ?_⟩
    rw [← hgroup.other_tables.2.1]
    simp only [Tables.withPart, Tables.touchGroup, Tables.insertSegment] at he
    split at he
    · exact .inl he
    · exact mem_insert.mp he
  cases h with
  | waiting hgroup hcount => exact hpart hgroup
  | published hgroup hvalid hcount x hx hid =>
    rw [published_segments]
    exact hpart hgroup

/-- An import adds one source and one segment at most. -/
theorem Imported.keeps {w : Windows} {segment : SmsSegment} {now : ℤ} {forwarding : Bool}
    {r : ImportResult} (h : Imported w segment now forwarding t r u) :
    Keeps u t ∨ ∃ new, Adds segment u t new := by
  cases h with
  | duplicate source hsource hdup =>
    have htouched : Keeps ((t.ensureModem segment.modemId).touchSource source.id now)
        (t.ensureModem segment.modemId) := keeps_updateSources fun _ => rfl
    exact .inl (htouched.trans (.congr rfl rfl))
  | single hnew hone hdup =>
    -- a message of its own has no segment
    refine .inr ⟨⟨0, segment.asPart 0 t.sources.nextId⟩, Adds.keeps ?_ (keeps_updateSources fun _ => rfl)⟩
    exact ⟨hnew, rfl, fun e he => .inl he, sources_registered segment now⟩
  | part hnew hmany hdup hlow hhigh hvalid hstored =>
    obtain ⟨new, hsource, hsegments⟩ := hstored.segments
    refine .inr ⟨new, Adds.keeps ?_ (keeps_updateSources fun _ => rfl)⟩
    refine ⟨hnew, hsource, hsegments, fun x hx => ?_⟩
    rw [hstored.sources] at hx
    exact sources_registered segment now x hx

/-- **One step** adds a segment only by an import of a source that is not known. -/
theorem Effect.keeps {w : Windows} (h : Effect w t op u) :
    Keeps u t ∨ ∃ segment now forwarding new, op = .importSegment segment now forwarding ∧
      Adds segment u t new := by
  -- deletions keep what they leave
  have hdeleted : ∀ {p : Entry Source → Bool}, ∀ x ∈ t.sources.deleteWhere p,
      ∃ y ∈ t.sources, y.id = x.id ∧ y.row.fingerprint = x.row.fingerprint :=
    fun x hx => ⟨x, (mem_deleteWhere.mp hx).1, rfl, rfl⟩
  cases h with
  | imported h => exact h.keeps.imp_right fun ⟨new, hnew⟩ => ⟨_, _, _, new, rfl, hnew⟩
  | published h => exact .inl (.congr h.segments h.sources)
  | scanned => exact .inl ⟨fun _ he => he, hdeleted⟩
  | pruned => exact .inl ⟨fun _ he => (mem_deleteWhere.mp he).1, hdeleted⟩
  | sourceDeleted => exact .inl (keeps_updateSources fun _ => rfl)
  | messageDeleted modemId messageId =>
    unfold Tables.withoutMessage
    split
    · exact .inl ⟨fun _ he => (mem_deleteWhere.mp he).1, fun x hx => ⟨x, hx, rfl, rfl⟩⟩
    · exact .inl (.congr rfl rfl)
  | modemDeleted =>
    exact .inl ⟨fun _ he => (mem_deleteWhere.mp he).1, fun x hx => ⟨x, hx, rfl, rfl⟩⟩
  | unchanged | syncRecorded | eventRecorded | messageAdded | messageRead | completed =>
    exact .inl (.congr rfl rfl)
  | claimed worker h => cases h <;> exact .inl (.congr rfl rfl)

/-- No two segments were read from the same source. -/
def ReadOnce (t : Tables) : Prop :=
  ∀ e ∈ t.segments, ∀ e' ∈ t.segments, e.row.sourceId = e'.row.sourceId → e = e'

/-- The source of a new segment is used by no segment so far. -/
theorem Adds.source_ne {segment : SmsSegment} {new : Entry Segment} (h : Adds segment u t new)
    (hc : Constraints t) {e : Entry Segment} (he : e ∈ t.segments) :
    e.row.sourceId ≠ new.row.sourceId := by
  intro hsame
  have hid := hc.segments_source e he _ rfl
  rw [hsame, h.source] at hid
  exact t.sources.nextId_notMem_ids hid

/-- No fingerprint is ever stored twice. -/
theorem ReadOnce.step (h : ReadOnce s.db.data) (op : Op) : ReadOnce (s.step op).db.data := by
  rcases (s.step_effect op).keeps with hkeeps | ⟨segment, now, forwarding, new, -, hadds⟩
  · exact fun e he e' he' => h e (hkeeps.segments e he) e' (hkeeps.segments e' he')
  · intro e he e' he' hsame
    rcases hadds.segments e he with he | rfl
    · rcases hadds.segments e' he' with he' | rfl
      · exact h e he e' he' hsame
      · exact absurd hsame (hadds.source_ne s.db.valid he)
    · rcases hadds.segments e' he' with he' | rfl
      · exact absurd hsame.symm (hadds.source_ne s.db.valid he')
      · rfl

theorem State.Reachable.readOnce (h : s.Reachable) : ReadOnce s.db.data := by
  obtain ⟨ops, rfl⟩ := h
  refine run_invariant_of_step (p := fun s : State => ReadOnce s.db.data) ?_ fun s op hs => hs.step op
  exact fun e he => absurd he notMem_empty

/-- Sources of which no segment is left stay without one, as long as they are known when they are
imported. -/
theorem not_held_step (h : ∀ e ∈ s.db.data.segments, ¬ HeldFrom sources s.db.data e)
    (hknown : Known sources s op) :
    ∀ e ∈ (s.step op).db.data.segments, ¬ HeldFrom sources (s.step op).db.data e := by
  rintro e he ⟨x, hx, hlink, hprint⟩
  rcases (s.step_effect op).keeps with hkeeps | ⟨segment, now, forwarding, new, rfl, hadds⟩
  · obtain ⟨y, hy, hid, hsame⟩ := hkeeps.sources x hx
    exact h e (hkeeps.segments e he) ⟨y, hy, hlink.trans hid.symm, hsame ▸ hprint⟩
  · rcases hadds.sources x hx with ⟨y, hy, hid, hsame⟩ | ⟨hid, hsame⟩
    · rcases hadds.segments e he with he | rfl
      · exact h e he ⟨y, hy, hlink.trans hid.symm, hsame ▸ hprint⟩
      · -- an old source is not that of the new segment
        rw [hadds.source, ← hid] at hlink
        exact absurd hlink.symm (id_lt_nextId hy).ne
    · -- the new source was not known, so it is none of these
      have hsome := hknown (hsame ▸ hprint)
      rw [hadds.unknown] at hsome
      cases hsome

/-! ## The removals -/

/-- A removal that takes the group takes everything that was read from its sources. -/
theorem not_held_of_gone (hs : s.Reachable) (hop : op.Removes)
    (hgone : groupId ∉ (s.step op).db.data.groups.ids) :
    ∀ e ∈ (s.step op).db.data.segments,
      ¬ HeldFrom (s.db.data.sourcesOf groupId) (s.step op).db.data e := by
  rintro e he ⟨x, hx, hlink, hprint⟩
  rcases (s.step_effect op).keeps with hkeeps | ⟨segment, now, forwarding, new, rfl, -⟩
  · obtain ⟨y, hy, hid, hsame⟩ := hkeeps.sources x hx
    obtain ⟨z, hz, hzprint⟩ := List.mem_map.mp hprint
    obtain ⟨hz, hused⟩ := mem_select.mp hz
    obtain ⟨e', he', hgroup⟩ := List.any_eq_true.mp hused
    simp only [Bool.and_eq_true, decide_eq_true_eq] at hgroup
    -- a source is read once, so the segment is that of the group
    have hyz : y = z := s.db.valid.sources_fingerprint.eq hy hz (congrArg some hsame)
      (congrArg some hzprint)
    have hee' := hs.readOnce e (hkeeps.segments e he) e' he'
      (by rw [hlink, ← hid, hyz, hgroup.2])
    have hgroups := (s.step op).db.valid.segments_group e he _ rfl
    rw [hee', hgroup.1] at hgroups
    exact hgone hgroups
  · cases hop

/-- Retention keeps the group exactly when its last part is recent. -/
theorem group_kept_iff {receivedLimit sentLimit : ℤ} {clock : PruneClock} {before : ℤ}
    (hg : g ∈ t.groups) (hnone : ∀ m ∈ (t.withinLimits modemId receivedLimit sentLimit).messages,
      m.row.groupId ≠ some g.id) :
    g ∈ ((t.withinLimits modemId receivedLimit sentLimit).withoutOrphans before clock).groups ↔
      before ≤ g.row.lastSeen := by
  -- without a message the group is an orphan, and its age decides
  have hmessage : (t.withinLimits modemId receivedLimit sentLimit).hasMessage g.id = false := by
    rw [Bool.eq_false_iff, ne_eq, hasMessage_eq_true]
    rintro ⟨m, hm, hgroup⟩
    exact hnone m hm hgroup
  refine mem_deleteWhere.trans ?_
  have horphan : (t.withinLimits modemId receivedLimit sentLimit).isOrphan before g =
      decide (g.row.lastSeen < before) := by
    rw [Tables.isOrphan, hmessage]
    rfl
  rw [show ((t.withinLimits modemId receivedLimit sentLimit).deleteOrphanSegments before).isOrphan
    before g = decide (g.row.lastSeen < before) from horphan, decide_eq_false_iff_not, not_lt]
  exact and_iff_right hg

theorem mem_withoutMessage {messageId : ℕ} {x : Entry Message} :
    x ∈ (t.withoutMessage modemId messageId).messages ↔
      x ∈ t.messages ∧ ¬ (x.id = messageId ∧ x.row.modemId = modemId) := by
  unfold Tables.withoutMessage
  split <;> exact mem_deleteWhere.trans (and_congr_right fun _ => by
    rw [← Bool.not_eq_true, Bool.and_eq_true, decide_eq_true_eq, decide_eq_true_eq])

/-- A delete request removes the group of the message, and no other group. -/
theorem groups_withoutMessage {messageId : ℕ} {m : Entry Message} (hm : m ∈ t.messages)
    (hgroup : m.row.groupId = some g.id) (hid : m.id = messageId) (hmodem : m.row.modemId = modemId)
    (x : Entry Group) :
    x ∈ (t.withoutMessage modemId messageId).groups ↔ x ∈ t.groups ∧ x.id ≠ g.id := by
  have hfind : t.messages.find? (fun x => x.id = messageId && x.row.modemId = modemId) = some m := by
    refine find?_eq_some_of_unique hm (by simp [hid, hmodem]) fun x _ hx => ?_
    simp only [Bool.and_eq_true, decide_eq_true_eq] at hx
    rw [hx.1, hid]
  unfold Tables.withoutMessage
  simp only [hfind, Option.bind_some, hgroup]
  exact mem_deleteWhere.trans (and_congr_right fun _ => decide_eq_false_iff_not)

/-- A removal leaves nothing of the group, unless it is retention that comes too early. -/
theorem group_gone (hs : s.Reachable) (hop : op.Removes) (hg : g ∈ s.db.data.groups)
    {m : Entry Message} (hm : m ∈ s.db.data.messages) (hgroup : m.row.groupId = some g.id)
    (hremoved : ∀ x ∈ (s.step op).db.data.messages, x.row.groupId ≠ some g.id)
    (hclears : Clears s g op) : g.id ∉ (s.step op).db.data.groups.ids := by
  have hchanged : (s.step op).db ≠ s.db := fun hsame =>
    hremoved m (by rw [hsame]; exact hm) hgroup
  rw [mem_ids]
  rintro ⟨x, hx, hid⟩
  cases hop with
  | prune modemId receivedLimit sentLimit clock =>
    obtain ⟨r, db, heq, hstep⟩ := State.commit_of_ne hchanged
    have hdata : (s.step (.prune modemId receivedLimit sentLimit clock)).db.data =
        (s.db.data.withinLimits modemId receivedLimit sentLimit).withoutOrphans
          (orphanBefore s.windows clock) clock := by
      rw [← (prune_eq_some heq).2.2, ← hstep]
      rfl
    rw [hdata] at hremoved hx
    have hold : x ∈ s.db.data.groups := (mem_deleteWhere.mp hx).1
    rw [eq_of_id_eq hold hg hid, group_kept_iff hg hremoved] at hx
    exact absurd hclears (not_lt.mpr hx)
  | deleteMessage modemId messageId =>
    obtain ⟨r, db, heq, hstep⟩ := State.commit_of_ne hchanged
    have hdata : (s.step (.deleteMessage modemId messageId)).db.data =
        s.db.data.withoutMessage modemId messageId := by
      rw [← deleteMessage_eq_some heq, ← hstep]
      rfl
    -- the message is gone, so it is the one the request names
    rw [hdata] at hremoved hx
    have hnamed : m.id = messageId ∧ m.row.modemId = modemId := by
      by_contra hother
      exact hremoved m (mem_withoutMessage.mpr ⟨hm, hother⟩) hgroup
    exact ((groups_withoutMessage hm hgroup hnamed.1 hnamed.2 x).mp hx).2 hid
  | deleteModemMessages modemId =>
    obtain ⟨r, db, heq, hstep⟩ := State.commit_of_ne hchanged
    have hdata : (s.step (.deleteModemMessages modemId)).db.data =
        s.db.data.withoutModemMessages modemId := by
      rw [← deleteModemMessages_eq_some heq, ← hstep]
      rfl
    rw [hdata] at hremoved hx
    have hmodem : m.row.modemId = modemId := by
      by_contra hother
      exact hremoved m (mem_deleteWhere.mpr ⟨hm, decide_eq_false hother⟩) hgroup
    -- the group belongs to the modem of its message
    obtain ⟨hx, hkept⟩ := mem_deleteWhere.mp hx
    rw [eq_of_id_eq hx hg hid, ← hs.consistent.message_modem m hm g hg hgroup] at hkept
    exact of_decide_eq_false hkept hmodem

/-- **Finality**: whatever is done after the removal of a message, nothing that was read from its
sources is in a message again, if retention did not come too early and every source that is imported
again is known. -/
theorem removal_final (hs : s.Reachable) (hop : op.Removes) (hg : g ∈ s.db.data.groups)
    {m : Entry Message} (hm : m ∈ s.db.data.messages) (hgroup : m.row.groupId = some g.id)
    (hremoved : ∀ x ∈ (s.step op).db.data.messages, x.row.groupId ≠ some g.id)
    (hclears : Clears s g op) {ops : List Op}
    (hknown : Along State.step (Known (s.db.data.sourcesOf g.id)) (s.step op) ops) :
    Throughout State.step (fun s' => ¬ Returned (s.db.data.sourcesOf g.id) s'.db.data) (s.step op)
      ops := by
  have hgone := group_gone hs hop hg hm hgroup hremoved hclears
  refine (throughout_of_along (p := fun s' : State => ∀ e ∈ s'.db.data.segments,
    ¬ HeldFrom (s.db.data.sourcesOf g.id) s'.db.data e) ?_ ?_ hknown).imp ?_
  · exact not_held_of_gone hs hop hgone
  · exact fun s' op' hop' h => not_held_step h hop'
  · rintro s' h ⟨m, -, e, he, -, hheld⟩
    exact h e he hheld

/-! ## Two removals -/

/-- A message of two parts has arrived, and a newer message of one part. -/
def withTwoMessages : State :=
  run State.step State.initial [.importSegment partA 1000 true, .importSegment partB 1010 true,
    .importSegment { partA with
      sourceIndex := 2, pdu := [0x32], timestamp := 200, totalParts := 1 } 1020 true]

/-- The first part is read once more, and groups that have waited are published. -/
def afterwards : List Op :=
  [.importSegment partA 1200 true, .publishExpired partA.modemId 1300 true ⟨id, fun _ => .rfl⟩]

/-- After a delete request the message stays away. -/
theorem removal_final_deleted :
    Returned (withTwoMessages.db.data.sourcesOf 1) withTwoMessages.db.data ∧
      Throughout State.step
        (fun s => ¬ Returned (withTwoMessages.db.data.sourcesOf 1) s.db.data)
        (withTwoMessages.step (.deleteModemMessages partA.modemId)) afterwards := by
  have hgroup : ∃ g ∈ withTwoMessages.db.data.groups.rows, g.id = 1 := by decide +kernel
  have hmessage : ∃ m ∈ withTwoMessages.db.data.messages.rows, m.row.groupId = some 1 := by
    decide +kernel
  have hremoved : ∀ x ∈ (withTwoMessages.step
      (.deleteModemMessages partA.modemId)).db.data.messages.rows, x.row.groupId ≠ some 1 := by
    decide +kernel
  -- the source stays known when its message is deleted
  have hknown : ((withTwoMessages.step
      (.deleteModemMessages partA.modemId)).db.data.sourceOf partA).isSome = true := by
    decide +kernel
  obtain ⟨g, hg, hid⟩ := hgroup
  obtain ⟨m, hm, hlink⟩ := hmessage
  refine ⟨by decide +kernel, ?_⟩
  rw [← hid] at hlink hremoved ⊢
  exact removal_final ⟨_, rfl⟩ (.deleteModemMessages _) hg hm hlink hremoved trivial
    ⟨fun _ => hknown, trivial, trivial⟩

/-- Retention that keeps one message. -/
def pruneToOne : Op := .prune partA.modemId 1 1 ⟨1100, 1100, 1100⟩

/-- After retention the message of two parts is published once more, and forwarded. -/
theorem prunedMessage_returns :
    ∃ (s : State) (op : Op) (groupId : ℕ), s.Reachable ∧ op.Removes ∧
      Returned (s.db.data.sourcesOf groupId) s.db.data ∧
      ¬ Returned (s.db.data.sourcesOf groupId) (s.step op).db.data ∧
      Along State.step (Known (s.db.data.sourcesOf groupId)) (s.step op) afterwards ∧
      Returned (s.db.data.sourcesOf groupId) (run State.step (s.step op) afterwards).db.data := by
  have hknown : ((withTwoMessages.step pruneToOne).db.data.sourceOf partA).isSome = true := by
    decide +kernel
  exact ⟨withTwoMessages, pruneToOne, 1, ⟨_, rfl⟩, .prune _ _ _ _, by decide +kernel,
    by decide +kernel, ⟨fun _ => hknown, trivial, trivial⟩, by decide +kernel⟩

end QModem.Smsd
