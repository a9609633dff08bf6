import QModem.Smsd.Invariants

/-!
# Which Statements Cannot Fail

A statement fails when it would break a constraint of the schema.  The statements of the operations
below never do, so retention and publication always run to their end.
-/

namespace QModem.Smsd

open Lib Transaction Table Option

variable {t : Tables} {s : Database}

/-! ## Deletions -/

/-- Deliveries are deleted together with their message. -/
theorem Constraints.deleteMessages (h : Constraints t) (p : Entry Message → Bool) :
    Constraints (t.deleteMessages p) where
  modems_id := h.modems_id
  sources_fingerprint := h.sources_fingerprint
  segments_part := h.segments_part
  segments_group := h.segments_group
  segments_source := h.segments_source
  messages_group_unique := h.messages_group_unique.deleteWhere
  messages_group := h.messages_group.deleteWhere
  deliveries_revision := h.deliveries_revision.deleteWhere
  deliveries_message := by
    refine h.deliveries_message.deleteWhere.target_deleteWhere fun d hd m hm hlink => ?_
    -- a deleted message would have taken the delivery with it
    have hall := List.any_eq_false.mp (mem_deleteWhere.mp hd).2 m hm
    simpa [some.inj hlink] using hall

theorem Constraints.deleteSegments (h : Constraints t) (p : Entry Segment → Bool) :
    Constraints { t with segments := t.segments.deleteWhere p } :=
  { h with
    segments_part := h.segments_part.deleteWhere
    segments_group := h.segments_group.deleteWhere
    segments_source := h.segments_source.deleteWhere }

/-- Groups can be deleted when no segment and no message refers to them. -/
theorem Constraints.deleteGroups (h : Constraints t) {p : Entry Group → Bool}
    (hsegments : ∀ g ∈ t.groups, p g = true → ∀ e ∈ t.segments, e.row.groupId ≠ g.id)
    (hmessages : ∀ g ∈ t.groups, p g = true → ∀ m ∈ t.messages, m.row.groupId ≠ some g.id) :
    Constraints { t with groups := t.groups.deleteWhere p } :=
  { h with
    segments_group := h.segments_group.target_deleteWhere fun e he g hg hlink =>
      Bool.eq_false_iff.mpr fun hp => hsegments g hg hp e he (some.inj hlink)
    messages_group := h.messages_group.target_deleteWhere fun m hm g hg hlink =>
      Bool.eq_false_iff.mpr fun hp => hmessages g hg hp m hm hlink }

theorem sourceInUse_eq_true {sourceId : ℕ} :
    t.sourceInUse sourceId = true ↔ ∃ e ∈ t.segments, e.row.sourceId = sourceId := by
  simp [Tables.sourceInUse, mem_rows]

section

variable (h : Constraints t)

include h

/-- Sources can be deleted when no segment refers to them. -/
theorem Constraints.deleteSources {p : Entry Source → Bool}
    (hfree : ∀ e ∈ t.sources, p e = true → t.sourceInUse e.id = false) :
    Constraints { t with sources := t.sources.deleteWhere p } :=
  { h with
    sources_fingerprint := h.sources_fingerprint.deleteWhere
    segments_source := by
      refine h.segments_source.target_deleteWhere fun e he x hx hlink => ?_
      by_contra hp
      have hunused := hfree x hx (by simpa using hp)
      rw [sourceInUse_eq_true.mpr ⟨e, he, some.inj hlink⟩] at hunused
      cases hunused }

/-! ## Retention -/

theorem Constraints.deleteOrphanSegments (before : ℤ) :
    Constraints (t.deleteOrphanSegments before) :=
  h.deleteSegments _

/-- The segments of an orphan are deleted before it. -/
theorem Constraints.deleteOrphanGroups (before : ℤ) :
    Constraints ((t.deleteOrphanSegments before).deleteOrphanGroups before) := by
  refine (h.deleteOrphanSegments before).deleteGroups ?_ ?_
  · intro g hg horphan e he hlink
    obtain ⟨-, hkept⟩ := mem_deleteWhere.mp he
    have hall := List.any_eq_false.mp hkept g hg
    exact hall (by simp only [hlink, decide_true, Bool.true_and]; exact horphan)
  · intro g hg horphan m hm hlink
    have hmessage := hasMessage_eq_true.mpr ⟨m, hm, hlink⟩
    simp only [Tables.isOrphan, Bool.and_eq_true, Bool.not_eq_true'] at horphan
    rw [horphan.1] at hmessage
    cases hmessage

theorem Constraints.deleteStaleSources (now : ℤ) : Constraints (t.deleteStaleSources now) := by
  refine h.deleteSources fun e _ hstale => ?_
  simp only [Tables.isStale, Bool.and_eq_true, Bool.not_eq_true'] at hstale
  exact hstale.2

theorem Constraints.deleteOldRuns (now : ℤ) : Constraints (t.deleteOldRuns now) := { h with }

end

/-- **Retention succeeds** with limits that make sense. -/
theorem prune_succeeds {w : Windows} {modemId : ModemId} {receivedLimit sentLimit : ℤ}
    {clock : PruneClock} (hreceived : 1 ≤ receivedLimit) (hsent : 1 ≤ sentLimit) :
    Succeeds (prune w modemId receivedLimit sentLimit clock) s := by
  have hlimits : ¬ (receivedLimit < 1 ∨ sentLimit < 1) := by omega
  have hkept : Constraints (s.data.withinLimits modemId receivedLimit sentLimit) :=
    (s.valid.deleteMessages _).deleteMessages _
  have hgroups := hkept.deleteOrphanGroups (orphanBefore w clock)
  have hsources := hgroups.deleteStaleSources clock.sources
  rw [prune, if_neg hlimits]
  exact .exec_bind (s.valid.deleteMessages _) <| .exec_bind hkept <|
    .exec_bind (hkept.deleteOrphanSegments _) <| .exec_bind hgroups <| .exec_bind hsources <|
      .exec (hsources.deleteOldRuns clock.runs)

theorem State.step_prune {s : State} {modemId : ModemId} {receivedLimit sentLimit : ℤ}
    {clock : PruneClock} (hreceived : 1 ≤ receivedLimit) (hsent : 1 ≤ sentLimit) :
    (s.step (.prune modemId receivedLimit sentLimit clock)).db.data =
      (s.db.data.withinLimits modemId receivedLimit sentLimit).withoutOrphans
        (orphanBefore s.windows clock) clock := by
  obtain ⟨_, db, heq⟩ :=
    @prune_succeeds s.db s.windows modemId receivedLimit sentLimit clock hreceived hsent
  rw [← (prune_eq_some heq).2.2, ← State.commit_of_eq heq]
  rfl

/-! ## Deletion on request -/

/-- **Deleting a message succeeds**: its group has no other message. -/
theorem deleteMessage_succeeds (modemId : ModemId) (messageId : ℕ) :
    Succeeds (deleteMessage modemId messageId) s := by
  simp only [deleteMessage, Succeeds.query_bind]
  refine .exec_bind (s.valid.deleteMessages _) ?_
  cases hgroup : (s.data.messages.find? fun m => m.id = messageId && m.row.modemId = modemId).bind
      (·.row.groupId) with
  | none => exact .pure _
  | some groupId =>
    obtain ⟨m, hfound, hm⟩ := bind_eq_some_iff.mp hgroup
    obtain ⟨hmem, hp⟩ := mem_of_find? hfound
    have hsegments := (s.valid.deleteMessages fun m =>
      m.id = messageId && m.row.modemId = modemId).deleteSegments (·.row.groupId = groupId)
    -- segments first, so that no foreign key is left when the group goes
    refine .exec_bind hsegments (.exec_bind (hsegments.deleteGroups ?_ ?_) (.pure _))
    · intro g _ hid e he hlink
      obtain rfl : g.id = groupId := of_decide_eq_true hid
      simp [hlink] at he
    · intro g _ hid m' hm' hlink
      obtain rfl : g.id = groupId := of_decide_eq_true hid
      obtain ⟨hmem', hp'⟩ := mem_deleteWhere.mp hm'
      rw [s.valid.messages_group_unique.eq hmem' hmem hlink hm, hp] at hp'
      cases hp'

/-- **Deleting the messages of a modem succeeds** exactly if no other modem has a message in one of
its groups. -/
theorem deleteModemMessages_succeeds_iff (modemId : ModemId) :
    Succeeds (deleteModemMessages modemId) s ↔
      ∀ g ∈ s.data.groups, g.row.modemId = modemId → ∀ m ∈ s.data.messages,
        m.row.groupId = some g.id → m.row.modemId = modemId := by
  constructor
  · rintro ⟨n, s', h⟩ g hg hmodem m hm hlink
    have hdata := deleteModemMessages_eq_some h
    by_contra hother
    -- the message would be left without its group
    have hkept : m ∈ s'.data.messages := by
      rw [hdata]
      exact mem_deleteWhere.mpr ⟨hm, by simpa using hother⟩
    obtain ⟨g', hg', hid⟩ := mem_ids.mp (s'.valid.messages_group m hkept g.id hlink)
    rw [hdata] at hg'
    obtain ⟨hmem, hp⟩ := mem_deleteWhere.mp hg'
    rw [eq_of_id_eq hmem hg hid] at hp
    simp [hmodem] at hp
  · intro hown
    simp only [deleteModemMessages, Succeeds.query_bind]
    have hmessages := s.valid.deleteMessages (·.row.modemId = modemId)
    have hsegments : Constraints ((s.data.deleteMessages
        (·.row.modemId = modemId)).deleteModemSegments modemId) := hmessages.deleteSegments _
    refine .exec_bind hmessages (.exec_bind hsegments (.exec_bind (hsegments.deleteGroups ?_ ?_)
      (.pure _)))
    · intro g hg hmodem e he hlink
      obtain ⟨-, hkept⟩ := mem_deleteWhere.mp he
      have hall := List.any_eq_false.mp hkept g hg
      simp [hlink, hmodem] at hall
    · intro g hg hmodem m hm hlink
      obtain ⟨hm, hkept⟩ := mem_deleteWhere.mp hm
      exact of_decide_eq_false hkept (hown g hg (of_decide_eq_true hmodem) m hm hlink)

/-! ## Insertions and updates -/

section

variable (h : Constraints t)

include h

theorem Constraints.ensureModem (modemId : ModemId) : Constraints (t.ensureModem modemId) :=
  { h with
    modems_id := by
      dsimp only [Tables.ensureModem]
      split
      · exact h.modems_id
      · rename_i hnone
        refine h.modems_id.insert fun m hm _ hsame => hnone ?_
        exact isSome_find?.mpr ⟨m, hm, decide_eq_true (some.inj hsame)⟩ }

theorem Constraints.updateSources {p : Entry Source → Bool} {f : Source → Source}
    (hf : ∀ x, (f x).fingerprint = x.fingerprint) :
    Constraints { t with sources := t.sources.updateWhere p f } :=
  { h with
    sources_fingerprint := h.sources_fingerprint.updateWhere fun x _ _ => congrArg some (hf x.row)
    segments_source := h.segments_source.target_updateWhere }

theorem Constraints.insertSource {segment : SmsSegment} (hnew : t.sourceOf segment = none) (now : ℤ) :
    Constraints (t.insertSource segment now) :=
  { h with
    sources_fingerprint := by
      refine h.sources_fingerprint.insert fun x hx _ hsame => ?_
      exact of_decide_eq_false (find?_eq_none.mp hnew x hx) (some.inj hsame)
    segments_source := h.segments_source.target_insert }

theorem Constraints.insertGroup (segment : SmsSegment) (now : ℤ) :
    Constraints (t.insertGroup segment now) :=
  { h with
    segments_group := h.segments_group.target_insert
    messages_group := h.messages_group.target_insert }

theorem Constraints.touchGroup (groupId : ℕ) (now : ℤ) : Constraints (t.touchGroup groupId now) :=
  { h with
    segments_group := h.segments_group.target_updateWhere
    messages_group := h.messages_group.target_updateWhere }

/-- A segment needs its group and its source. -/
theorem Constraints.insertSegment (segment : SmsSegment) {groupId sourceId : ℕ}
    (hgroup : groupId ∈ t.groups.ids) (hsource : sourceId ∈ t.sources.ids) :
    Constraints (t.insertSegment segment groupId sourceId) := by
  unfold Tables.insertSegment
  split
  · exact h
  · rename_i hfree
    refine { h with segments_part := ?_, segments_group := ?_, segments_source := ?_ }
    · refine h.segments_part.insert fun e he _ hsame => hfree (segmentAt_isSome.mpr ⟨e, he, ?_⟩)
      exact Prod.mk.inj (some.inj hsame)
    · exact h.segments_group.insert fun n hn => some.inj hn ▸ hgroup
    · exact h.segments_source.insert fun n hn => some.inj hn ▸ hsource

theorem Constraints.reviseMessage (messageId : ℕ) (content : Text) (complete : Bool) (revision : ℕ)
    (now : ℤ) : Constraints (t.reviseMessage messageId content complete revision now) :=
  { h with
    messages_group_unique := h.messages_group_unique.updateWhere fun _ _ _ => rfl
    messages_group := h.messages_group.updateWhere fun _ _ _ => rfl
    deliveries_message := h.deliveries_message.target_updateWhere }

/-- A message can be added when its group, if it has one, exists and has no message yet. -/
theorem Constraints.insertMessage {message : Message}
    (hgroup : ∀ n ∈ message.groupId, n ∈ t.groups.ids ∧ t.messageOfGroup n = none) :
    Constraints (t.insertMessage message) :=
  { h with
    messages_group_unique := by
      refine h.messages_group_unique.insert fun m hm hsome hsame => ?_
      obtain ⟨n, hn⟩ := ne_none_iff_exists'.mp hsome
      exact messageOfGroup_eq_none.mp (hgroup n hn).2 m hm (hsame.trans hn)
    messages_group := h.messages_group.insert fun n hn => (hgroup n hn).1
    deliveries_message := h.deliveries_message.target_insert }

/-- A delivery needs its message. -/
theorem Constraints.insertDelivery {messageId : ℕ} (hmessage : messageId ∈ t.messages.ids)
    (revision : ℕ) (now : ℤ) : Constraints (t.insertDelivery messageId revision now) := by
  unfold Tables.insertDelivery
  split
  · exact h
  · rename_i hfree
    refine { h with deliveries_revision := ?_, deliveries_message := ?_ }
    · refine h.deliveries_revision.insert fun d hd _ hsame => hfree (isSome_find?.mpr ⟨d, hd, ?_⟩)
      obtain ⟨hm, hr⟩ := Prod.mk.inj (some.inj hsame)
      simp [hm, hr]
    · exact h.deliveries_message.insert fun n hn => some.inj hn ▸ hmessage

end

/-! ## Receiving -/

variable {forwarding : Bool} {now : ℤ}

theorem queueDelivery_succeeds {messageId revision : ℕ}
    (hmessage : messageId ∈ s.data.messages.ids) :
    Succeeds (queueDelivery forwarding messageId revision now) s := by
  cases forwarding with
  | false => exact .pure ()
  | true =>
    have hvalid := s.valid.insertDelivery hmessage revision now
    exact .exec (f := fun t : Tables => t.insertDelivery messageId revision now) hvalid

/-- Goes on behind `queue_delivery`. -/
theorem queueDelivery_bind_succeeds {α : Type} {messageId revision : ℕ}
    (hmessage : messageId ∈ s.data.messages.ids) (a : α) :
    Succeeds (queueDelivery forwarding messageId revision now >>= fun _ => pure a) s :=
  (queueDelivery_succeeds hmessage).bind fun _ _ _ => .pure a

/-- A group that is there can be published. -/
theorem publishGroup_succeeds {g : Entry Group} (hg : g ∈ s.data.groups) (now : ℤ)
    (forwarding : Bool) : Succeeds (publishGroup g.id now forwarding) s := by
  simp only [publishGroup, Succeeds.query_bind, find?_id hg rfl]
  cases hm : s.data.messageOfGroup g.id with
  | some m =>
    obtain ⟨hmem, -⟩ := (messageOfGroup_eq_some s.valid).mp hm
    simp only
    split
    · exact .pure _
    · refine .exec_bind (s.valid.reviseMessage _ _ _ _ _) (queueDelivery_bind_succeeds ?_ _)
      dsimp only [Tables.reviseMessage]
      rw [ids_updateWhere]
      exact mem_ids.mpr ⟨m, hmem, rfl⟩
  | none =>
    simp only [Succeeds.query_bind]
    refine .exec_bind (s.valid.insertMessage ?_) (queueDelivery_bind_succeeds ?_ _)
    · -- a new message is the first one of its group
      rintro n ⟨⟩
      exact ⟨mem_ids.mpr ⟨g, hg, rfl⟩, hm⟩
    · exact mem_ids.mpr ⟨_, mem_insert.mpr (.inr rfl), rfl⟩

/-- The groups stay there while one after the other is published. -/
theorem publishGroups_succeeds {ids : List ℕ} (hids : ∀ n ∈ ids, n ∈ s.data.groups.ids) (now : ℤ)
    (forwarding : Bool) : Succeeds (publishGroups now forwarding ids) s := by
  induction ids generalizing s with
  | nil => exact .pure 0
  | cons n rest ih =>
    obtain ⟨g, hg, rfl⟩ := mem_ids.mp (hids n List.mem_cons_self)
    refine (publishGroup_succeeds hg now forwarding).bind fun _ s' hs' => ?_
    -- publishing does not change the groups
    obtain ⟨x, -, -, hdata⟩ := publishGroup_eq_some hs'
    refine .bind (ih fun k hk => ?_) fun _ _ _ => .pure _
    rw [hdata, published_groups]
    exact hids k (List.mem_cons_of_mem _ hk)

/-- **Publication succeeds.** -/
theorem publishExpired_succeeds (w : Windows) (modemId : ModemId) (now : ℤ) (forwarding : Bool)
    (scan : ScanOrder) : Succeeds (publishExpired w modemId now forwarding scan) s := by
  refine publishGroups_succeeds (fun n hn => ?_) now forwarding
  obtain ⟨g, hg, hid⟩ := List.mem_map.mp ((scan.perm _).mem_iff.mp hn)
  exact mem_ids.mpr ⟨g, (mem_select.mp hg).1, hid⟩

theorem findGroup_succeeds (w : Windows) (segment : SmsSegment) (now : ℤ) :
    Succeeds (findGroup w segment now) s := by
  simp only [findGroup, Succeeds.query_bind]
  cases s.data.lookupGroup w segment now with
  | some g => exact .pure _
  | none =>
    simp only [Succeeds.query_bind]
    have hvalid := s.valid.insertGroup segment now
    exact .exec_bind (f := fun t : Tables => t.insertGroup segment now) hvalid (.pure _)

/-- A part with a valid number can be stored. -/
theorem storePart_succeeds {w : Windows} {segment : SmsSegment} {sourceId : ℕ}
    (hlow : 1 ≤ segment.partNumber) (hhigh : segment.partNumber ≤ segment.total)
    (hsource : sourceId ∈ s.data.sources.ids) :
    Succeeds (storePart w segment sourceId now forwarding) s := by
  have hrange : ¬ (segment.partNumber < 1 ∨ segment.total < segment.partNumber) := by omega
  rw [storePart, if_neg hrange]
  refine (findGroup_succeeds w segment now).bind fun groupId s' hs' => ?_
  have hgroup := findGroup_eq_some hs'
  obtain ⟨g, hg, hid⟩ := hgroup.exists_group
  -- both foreign keys are there: the group was found or made, the source inserted before
  have hsegment : Constraints (s'.data.insertSegment segment groupId sourceId) :=
    s'.valid.insertSegment segment (mem_ids.mpr ⟨g, hg, hid⟩) (hgroup.other_tables.1 ▸ hsource)
  refine .exec_bind hsegment (.exec_bind (hsegment.touchGroup groupId now) ?_)
  simp only [Succeeds.query_bind]
  split
  · obtain ⟨x, hx, rfl⟩ : ∃ x ∈ ((s'.data.insertSegment segment groupId sourceId).touchGroup groupId
        now).groups, x.id = groupId := by
      rw [← mem_ids, Tables.touchGroup, ids_updateWhere]
      exact mem_ids.mpr ⟨g, hg, hid⟩
    exact (publishGroup_succeeds hx now forwarding).bind fun _ _ _ => .pure _
  · exact .pure _

/-- **Importing succeeds** for a source index and a part number that make sense. -/
theorem importSegment_succeeds {w : Windows} {segment : SmsSegment}
    (hindex : 0 ≤ segment.sourceIndex)
    (hpart : s.data.sourceOf segment = none → 1 < segment.total →
      1 ≤ segment.partNumber ∧ segment.partNumber ≤ segment.total) :
    Succeeds (importSegment w segment now forwarding) s := by
  rw [importSegment, if_neg (by omega)]
  refine .exec_bind (s.valid.ensureModem segment.modemId) ?_
  simp only [Succeeds.query_bind]
  -- a known source needs no more than an update
  cases hsource : (s.data.ensureModem segment.modemId).sourceOf segment with
  | some source => exact .exec_bind ((s.valid.ensureModem _).updateSources fun _ => rfl) (.pure _)
  | none =>
    simp only [Succeeds.query_bind]
    refine .exec_bind ((s.valid.ensureModem _).insertSource hsource now) (.bind ?_ ?_)
    · unfold storeSegment
      split
      · rename_i hmany
        refine storePart_succeeds (hpart hsource hmany).1 (hpart hsource hmany).2 ?_
        exact mem_ids.mpr ⟨_, mem_insert.mpr (.inr rfl), rfl⟩
      · refine .bind ?_ fun _ _ _ => .pure _
        simp only [insertSingleMessage, Succeeds.query_bind]
        refine .exec_bind (.insertMessage ?_ ?_) (queueDelivery_bind_succeeds ?_ _)
        · exact (s.valid.ensureModem _).insertSource hsource now
        · rintro n ⟨⟩
        · exact mem_ids.mpr ⟨_, mem_insert.mpr (.inr rfl), rfl⟩
    · intro _ s' _
      exact .exec_bind (s'.valid.updateSources fun _ => rfl) (.pure _)

end QModem.Smsd
