import QModem.Smsd.Validity

/-!
# Do Modems Disturb Each Other?

All modems share one database.  The operations for one modem select its rows by its name, except for
the clean-up at the end of `sms_db_prune`: it deletes groups without a message and sources without
segments whatever modem they belong to.

## Main results

- `isolation_iff`: exactly when an operation for one modem leaves the rows of another one alone
- `foreignPart_not_untouched`: retention for one modem deletes a part another one has received
-/

namespace QModem.Smsd

open Lib Transaction Table Option Bool

/-- The messages, groups, segments and sources of a modem are the same. -/
structure Untouched (b : ModemId) (t u : Tables) : Prop where
  messages : SameOn (·.modemId = b) t.messages u.messages
  groups : SameOn (·.modemId = b) t.groups u.groups
  sources : SameOn (·.modemId = b) t.sources u.sources
  segments : ∀ g ∈ t.groups, g.row.modemId = b → SameOn (·.groupId = g.id) t.segments u.segments

/-- The modem an operation is performed for. -/
def Op.modem : Op → Option ModemId
  | .importSegment segment _ _ => some segment.modemId
  | .publishExpired modemId _ _ _ => some modemId
  | .finishScan modemId _ _ => some modemId
  | .prune modemId _ _ _ => some modemId
  | .markSourceDeleted _ _ => none
  | .deleteMessage modemId _ => some modemId
  | .deleteModemMessages modemId => some modemId
  | .recordSync syncRun _ => some syncRun.modemId
  | .recordEvent modemId _ _ => some modemId
  | .setMultipartWindows _ _ => none
  | .addLooseMessage message _ => some message.modemId
  | .markRead modemId _ _ => some modemId
  | .claim _ _ => none
  | .complete _ _ _ _ _ => none

/-- The clean-up of `sms_db_prune` finds nothing of a modem to delete. -/
def NothingToClean (w : Windows) (clock : PruneClock) (b : ModemId) (t : Tables) : Prop :=
  (∀ g ∈ t.groups, g.row.modemId = b → t.isOrphan (orphanBefore w clock) g = false) ∧
    ∀ e ∈ t.sources, e.row.modemId = b → t.isStale clock.sources e = false

variable {a b : ModemId} {t u v : Tables} {s : State}

/-! ## Single statements -/

namespace Untouched

theorem refl (t : Tables) : Untouched b t t where
  messages := .refl _
  groups := .refl _
  sources := .refl _
  segments _ _ _ := .refl _

theorem trans (h : Untouched b t u) (h' : Untouched b u v) : Untouched b t v where
  messages := h.messages.trans h'.messages
  groups := h.groups.trans h'.groups
  sources := h.sources.trans h'.sources
  segments g hg hb := (h.segments g hg hb).trans (h'.segments g ((h.groups g hb).mpr hg) hb)

theorem symm (h : Untouched b t u) : Untouched b u t where
  messages e he := (h.messages e he).symm
  groups e he := (h.groups e he).symm
  sources e he := (h.sources e he).symm
  segments g hg hb e he := (h.segments g ((h.groups g hb).mp hg) hb e he).symm

/-- The other tables do not matter. -/
theorem congr (hmessages : u.messages = t.messages) (hgroups : u.groups = t.groups)
    (hsources : u.sources = t.sources) (hsegments : u.segments = t.segments) : Untouched b t u where
  messages := by rw [hmessages]; exact .refl _
  groups := by rw [hgroups]; exact .refl _
  sources := by rw [hsources]; exact .refl _
  segments g _ _ := by rw [hsegments]; exact .refl _

theorem of_messages {messages : Table Message} {deliveries : Table Delivery}
    (h : SameOn (·.modemId = b) t.messages messages) :
    Untouched b t { t with messages, deliveries } :=
  { refl t with messages := h }

theorem of_sources {sources : Table Source} (h : SameOn (·.modemId = b) t.sources sources) :
    Untouched b t { t with sources } :=
  { refl t with sources := h }

theorem of_groups {groups : Table Group} (h : SameOn (·.modemId = b) t.groups groups) :
    Untouched b t { t with groups } :=
  { refl t with groups := h }

theorem of_segments {segments : Table Segment}
    (h : ∀ g ∈ t.groups, g.row.modemId = b → SameOn (·.groupId = g.id) t.segments segments) :
    Untouched b t { t with segments } :=
  { refl t with segments := h }

end Untouched

/-! ## Publishing and importing -/

variable {g : Entry Group}

/-- Publishing a group of another modem writes a message of that modem. -/
theorem Linked.untouched_published (h : Linked t) (hc : Constraints t) (hg : g ∈ t.groups)
    (hmodem : g.row.modemId ≠ b) (now : ℤ) (forwarding : Bool) :
    Untouched b t (t.published g now forwarding) := by
  unfold Tables.published
  split
  · rename_i m hm
    obtain ⟨hmem, hgroup⟩ := (messageOfGroup_eq_some hc).mp hm
    -- the message belongs to the modem of the group
    have hne : m.row.modemId ≠ b := by rwa [h.message_modem m hmem g hg hgroup]
    split
    · exact .refl t
    · refine .of_messages ?_
      have hrow : ∀ e ∈ t.messages, decide (e.id = m.id) = true → ¬ e.row.modemId = b := by
        intro e he hid
        rwa [eq_of_id_eq he hmem (by simpa using hid)]
      dsimp only [Tables.reviseMessage]
      exact .updateWhere hrow hrow
  · exact .of_messages (.insert hmodem)

/-- Publishing groups of other modems touches nothing of this one. -/
theorem PublishedAll.untouched {now : ℤ} {forwarding : Bool} {ids : List ℕ}
    (h : PublishedAll now forwarding ids t u) (hc : Constraints t) (hl : Linked t)
    (hids : ∀ n ∈ ids, ∀ g ∈ t.groups, g.id = n → g.row.modemId ≠ b) : Untouched b t u := by
  induction h with
  | nil => exact .refl _
  | cons g hg hvalid _ ih =>
    have hne := hids g.id List.mem_cons_self g hg rfl
    refine (hl.untouched_published hc hg hne now forwarding).trans
      (ih hvalid (hl.published hg now forwarding) fun n hn x hx => ?_)
    rw [published_groups] at hx
    exact hids n (List.mem_cons_of_mem _ hn) x hx

section Import

variable {w : Windows} {segment : SmsSegment} {sourceId groupId : ℕ} {now : ℤ} {forwarding : Bool}

theorem untouched_registered (hne : segment.modemId ≠ b) :
    Untouched b t (t.registered segment now) := by
  have hmodem : Untouched b t (t.ensureModem segment.modemId) := .congr rfl rfl rfl rfl
  exact hmodem.trans (.of_sources (.insert hne))

/-- A row of a source can be changed when it belongs to another modem. -/
theorem untouched_updateSource {f : Source → Source} (hf : ∀ x, (f x).modemId = x.modemId)
    (hsource : ∀ e ∈ t.sources, e.id = sourceId → e.row.modemId ≠ b) :
    Untouched b t { t with sources := t.sources.updateWhere (·.id = sourceId) f } := by
  refine .of_sources (.updateWhere ?_ ?_)
  · intro e he hid
    exact hsource e he (by simpa using hid)
  · intro e he hid
    rw [hf]
    exact hsource e he (by simpa using hid)

theorem GroupFor.untouched (h : GroupFor w segment now t groupId u) (hne : segment.modemId ≠ b) :
    Untouched b t u := by
  cases h with
  | found x hlookup => exact .refl t
  | created hlookup hvalid => exact .of_groups (.insert hne)

/-- A part for a group of another modem. -/
theorem untouched_withPart (hgroup : ∀ g ∈ t.groups, g.id = groupId → g.row.modemId ≠ b) :
    Untouched b t (t.withPart segment groupId sourceId now) := by
  have hsegment : Untouched b t (t.insertSegment segment groupId sourceId) := by
    refine .of_segments fun g hg hb => ?_
    split
    · exact .refl _
    · exact .insert fun hlink => hgroup g hg hlink.symm hb
  have hrow : ∀ g ∈ t.groups, decide (g.id = groupId) = true → ¬ g.row.modemId = b :=
    fun g hg hid => hgroup g hg (by simpa using hid)
  exact hsegment.trans (.of_groups (.updateWhere hrow hrow))

/-- The group of the part has the modem of the segment. -/
theorem PartStored.untouched (h : PartStored w segment sourceId now forwarding t u)
    (hc : Constraints t) (ht : Consistent t) (hmany : 1 < segment.total)
    (hsource : ∀ e ∈ t.sources, e.id = sourceId → e.row.modemId = segment.modemId)
    (hne : segment.modemId ≠ b) : Untouched b t u := by
  -- the group of the part belongs to the modem of the part, before and after it is touched
  have hmodem : ∀ {groupId : ℕ} {v : Tables}, GroupFor w segment now t groupId v →
      ∀ g ∈ v.groups, g.id = groupId → g.row.modemId ≠ b := by
    intro groupId v hgroup g hg hid
    have hkey : g.row.modemId = segment.modemId := congrArg Prod.fst (hgroup.key hg hid)
    rwa [hkey]
  cases h with
  | waiting hgroup hcount => exact (hgroup.untouched hne).trans (untouched_withPart (hmodem hgroup))
  | published hgroup hvalid hcount g hg hid =>
    have hstored := (hgroup.untouched hne).trans
      (@untouched_withPart b _ segment sourceId _ now (hmodem hgroup))
    refine hstored.trans (Linked.untouched_published ?_ hvalid hg ?_ now forwarding)
    · exact hgroup.linked_withPart hc ht (total_eq_totalParts hmany).2 hsource
    · obtain ⟨x, hx, hxid, hxmodem, -⟩ := (within_touchGroup _ now).groups g hg
      rw [← hxmodem]
      exact hmodem hgroup x hx (hxid.trans hid)

/-- A segment of another modem writes rows of that modem only. -/
theorem Imported.untouched {r : ImportResult} (h : Imported w segment now forwarding t r u)
    (hc : Constraints t) (ht : Consistent t) (hne : segment.modemId ≠ b) : Untouched b t u := by
  have hnew : ∀ e ∈ (t.registered segment now).sources, e.id = t.sources.nextId →
      e.row.modemId = segment.modemId := by
    intro e he hid
    rcases mem_insert.mp he with he | rfl
    · exact absurd hid (id_lt_nextId he).ne
    · rfl
  cases h with
  | duplicate source hsource hdup =>
    obtain ⟨hmem, hprint⟩ := mem_of_find? hsource
    -- the modem is part of the fingerprint
    have hmodem : source.row.modemId = segment.modemId :=
      congrArg Prod.fst (of_decide_eq_true hprint)
    have hensured : Untouched b t (t.ensureModem segment.modemId) := .congr rfl rfl rfl rfl
    refine hensured.trans (untouched_updateSource (fun _ => rfl) fun e he hid => ?_)
    rw [eq_of_id_eq he hmem hid, hmodem]
    exact hne
  | single hfresh hone hdup =>
    have hmessage : Untouched b (t.registered segment now)
        (((t.registered segment now).insertMessage (singleMessage segment now)).queued forwarding
          t.messages.nextId 1 now) := .of_messages (.insert hne)
    refine (untouched_registered hne).trans (hmessage.trans
      (untouched_updateSource (fun _ => rfl) fun e he hid => ?_))
    rwa [hnew e he hid]
  | part hfresh hmany hdup hlow hhigh hvalid hstored =>
    refine (untouched_registered hne).trans ((hstored.untouched hvalid (ht.registered hc segment now)
      hmany hnew hne).trans (untouched_updateSource (fun _ => rfl) fun e he hid => ?_))
    rw [hstored.sources] at he
    rwa [hnew e he hid]

end Import

/-! ## Removals -/

theorem untouched_deleteMessages {p : Entry Message → Bool}
    (h : ∀ m ∈ t.messages, p m = true → m.row.modemId ≠ b) : Untouched b t (t.deleteMessages p) :=
  .of_messages (.deleteWhere h)

/-- Segments and the groups they belong to can be deleted when the groups are of another modem. -/
theorem untouched_deleteGroups {p : Entry Segment → Bool} {q : Entry Group → Bool}
    (hsegments : ∀ e ∈ t.segments, p e = true → ∀ g ∈ t.groups, e.row.groupId = g.id →
      g.row.modemId ≠ b)
    (hgroups : ∀ g ∈ t.groups, q g = true → g.row.modemId ≠ b) :
    Untouched b t
      { t with segments := t.segments.deleteWhere p, groups := t.groups.deleteWhere q } := by
  have hdeleted : Untouched b t { t with segments := t.segments.deleteWhere p } :=
    .of_segments fun g hg hb =>
      .deleteWhere fun e he hp hlink => hsegments e he hp g hg hlink hb
  exact hdeleted.trans (.of_groups (.deleteWhere hgroups))

/-- The statement names the modem, so a message of another one is not found. -/
theorem Linked.untouched_withoutMessage (h : Linked t) (hne : a ≠ b) (messageId : ℕ) :
    Untouched b t (t.withoutMessage a messageId) := by
  unfold Tables.withoutMessage
  have hdeleted : Untouched b t (t.deleteMessages fun m => m.id = messageId && m.row.modemId = a) := by
    refine untouched_deleteMessages fun m _ hp hb => hne ?_
    simp only [and_eq_true, decide_eq_true_eq] at hp
    rw [← hp.2, hb]
  split
  · rename_i groupId hfound
    obtain ⟨x, hx, hgroup⟩ := bind_eq_some_iff.mp hfound
    obtain ⟨hmem, hp⟩ := mem_of_find? hx
    simp only [and_eq_true, decide_eq_true_eq] at hp
    -- the group belongs to the modem of its message
    have hmodem : ∀ g ∈ t.groups, g.id = groupId → g.row.modemId ≠ b := by
      rintro g hg rfl
      rwa [← h.message_modem x hmem g hg hgroup, hp.2]
    refine hdeleted.trans (untouched_deleteGroups ?_ ?_)
    · intro e _ hid g hg hlink
      exact hmodem g hg (hlink.symm.trans (by simpa using hid))
    · intro g hg hid
      exact hmodem g hg (by simpa using hid)
  · exact hdeleted

/-- All deletes have the modem in their condition. -/
theorem untouched_withoutModemMessages (hne : a ≠ b) :
    Untouched b t (t.withoutModemMessages a) := by
  refine (untouched_deleteMessages fun m _ hp hb => hne ?_).trans (untouched_deleteGroups ?_ ?_)
  · rw [← hb, ← of_decide_eq_true hp]
  · intro e _ hany g hg hlink hb
    obtain ⟨x, hx, hmodem⟩ := List.any_eq_true.mp hany
    simp only [and_eq_true, decide_eq_true_eq] at hmodem
    obtain rfl := eq_of_id_eq hx hg (hmodem.1.trans hlink)
    exact hne (hmodem.2.symm.trans hb)
  · intro g _ hmodem hb
    exact hne ((of_decide_eq_true hmodem).symm.trans hb)

/-! ## Retention -/

theorem untouched_withinLimits (hne : a ≠ b) (receivedLimit sentLimit : ℤ) :
    Untouched b t (t.withinLimits a receivedLimit sentLimit) := by
  refine (untouched_deleteMessages ?_).trans (untouched_deleteMessages ?_) <;>
    (intro m _ hp hb
     simp only [and_eq_true, decide_eq_true_eq] at hp
     exact hne (hp.1.1.symm.trans hb))

/-- Whether a group of the modem has a message only depends on the rows of the modem. -/
theorem Untouched.hasMessage (h : Untouched b t u) (ht : Linked t) (hu : Linked u)
    (hg : g ∈ t.groups) (hb : g.row.modemId = b) : u.hasMessage g.id = t.hasMessage g.id := by
  rw [Bool.eq_iff_iff, hasMessage_eq_true, hasMessage_eq_true]
  constructor
  · rintro ⟨m, hm, hlink⟩
    have hmodem := hu.message_modem m hm g ((h.groups g hb).mpr hg) hlink
    exact ⟨m, (h.messages m (hmodem.trans hb)).mp hm, hlink⟩
  · rintro ⟨m, hm, hlink⟩
    have hmodem := ht.message_modem m hm g hg hlink
    exact ⟨m, (h.messages m (hmodem.trans hb)).mpr hm, hlink⟩

theorem Untouched.isOrphan (h : Untouched b t u) (ht : Linked t) (hu : Linked u) (hg : g ∈ t.groups)
    (hb : g.row.modemId = b) (before : ℤ) : u.isOrphan before g = t.isOrphan before g := by
  rw [Tables.isOrphan, Tables.isOrphan, h.hasMessage ht hu hg hb]

/-- A source of the modem stays in use when no group of the modem is cleaned up. -/
theorem sourceInUse_deleteOrphanSegments (ht : Linked t) {before : ℤ}
    (horphan : ∀ g ∈ t.groups, g.row.modemId = b → t.isOrphan before g = false)
    {source : Entry Source} (hsource : source ∈ t.sources) (hb : source.row.modemId = b) :
    (t.deleteOrphanSegments before).sourceInUse source.id = t.sourceInUse source.id := by
  rw [Bool.eq_iff_iff, sourceInUse_eq_true, sourceInUse_eq_true]
  constructor
  · rintro ⟨e, he, hlink⟩
    exact ⟨e, (mem_deleteWhere.mp he).1, hlink⟩
  · rintro ⟨e, he, hlink⟩
    refine ⟨e, mem_deleteWhere.mpr ⟨he, ?_⟩, hlink⟩
    refine List.any_eq_false.mpr fun g hg hdeleted => ?_
    rw [Bool.and_eq_true, decide_eq_true_eq] at hdeleted
    -- the group of the segment belongs to the modem of the source
    have hmodem := ht.segment_modem e he g hg source hsource hdeleted.1.symm hlink
    rw [horphan g hg (hmodem.symm.trans hb)] at hdeleted
    cases hdeleted.2

/-- The clean-up has no modem in its conditions, so it spares one only if it finds nothing of it. -/
theorem untouched_withoutOrphans_iff (ht : Linked t) (before : ℤ)
    (clock : PruneClock) :
    Untouched b t (t.withoutOrphans before clock) ↔
      (∀ g ∈ t.groups, g.row.modemId = b → t.isOrphan before g = false) ∧
        ∀ e ∈ t.sources, e.row.modemId = b → t.isStale clock.sources e = false := by
  constructor
  · intro h
    have horphan : ∀ g ∈ t.groups, g.row.modemId = b → t.isOrphan before g = false := by
      intro g hg hb
      exact (mem_deleteWhere.mp ((h.groups g hb).mpr hg)).2
    refine ⟨horphan, fun e he hb => ?_⟩
    -- a source that is in use stays in use without the segments of orphans
    have hkept := (mem_deleteWhere.mp ((h.sources e hb).mpr he)).2
    rw [← hkept, Tables.isStale, Tables.isStale]
    congr 2
    exact (sourceInUse_deleteOrphanSegments ht horphan he hb).symm
  · rintro ⟨horphan, hstale⟩
    have hgroups : Untouched b t ((t.deleteOrphanSegments before).deleteOrphanGroups before) := by
      refine untouched_deleteGroups ?_ ?_
      · intro e _ hany g hg hlink hb
        obtain ⟨x, hx, hp⟩ := List.any_eq_true.mp hany
        rw [and_eq_true, decide_eq_true_eq] at hp
        rw [eq_of_id_eq hx hg (hp.1.trans hlink), horphan g hg hb] at hp
        cases hp.2
      · intro g hg hp hb
        have hg' : t.isOrphan before g = true := hp
        rw [horphan g hg hb] at hg'
        cases hg'
    refine hgroups.trans (.trans (.of_sources (.deleteWhere ?_)) (.congr rfl rfl rfl rfl))
    intro e he hp hb
    have hold := hstale e he hb
    rw [Tables.isStale, ← sourceInUse_deleteOrphanSegments ht horphan he hb] at hold
    cases hp.symm.trans hold

/-- The limits are those of one modem, the clean-up is for all of them. -/
theorem untouched_prune_iff (ht : Consistent t) (hne : a ≠ b) (w : Windows)
    (receivedLimit sentLimit : ℤ) (clock : PruneClock) :
    Untouched b t ((t.withinLimits a receivedLimit sentLimit).withoutOrphans (orphanBefore w clock)
      clock) ↔ NothingToClean w clock b t := by
  have hlimits : Untouched b t (t.withinLimits a receivedLimit sentLimit) :=
    untouched_withinLimits hne receivedLimit sentLimit
  have hu : Consistent (t.withinLimits a receivedLimit sentLimit) :=
    (ht.deleteMessages _).deleteMessages _
  have hsplit := untouched_withoutOrphans_iff (b := b) hu.toLinked (orphanBefore w clock) clock
  refine Iff.trans ⟨hlimits.symm.trans, hlimits.trans⟩ (hsplit.trans (and_congr ?_ Iff.rfl))
  -- retention alone changes neither the groups nor the messages of the other modem
  refine forall_congr' fun g => forall_congr' fun hg => forall_congr' fun hb => ?_
  rw [hlimits.isOrphan ht.toLinked hu.toLinked hg hb]

/-! ## Operations -/

/-- Every operation but retention keeps to its modem. -/
theorem Effect.untouched {w : Windows} {op : Op} (h : Effect w t op u) (hc : Constraints t)
    (ht : Consistent t) (hop : op.modem = some a) (hne : a ≠ b)
    (hprune : ∀ receivedLimit sentLimit clock, op ≠ .prune a receivedLimit sentLimit clock) :
    Untouched b t u := by
  cases h with
  | unchanged => exact .refl t
  | imported h =>
    obtain rfl := some.inj hop
    exact h.untouched hc ht hne
  | @published modemId now forwarding scan _ h =>
    obtain rfl := some.inj hop
    refine h.untouched hc ht.toLinked ?_
    rintro n hn g hg rfl
    -- only groups of the modem are published, in whatever order
    obtain ⟨x, hx, hid⟩ := List.mem_map.mp ((scan.perm _).mem_iff.mp hn)
    obtain ⟨hx, hp⟩ := mem_select.mp hx
    simp only [and_eq_true, decide_eq_true_eq] at hp
    rw [← eq_of_id_eq hx hg hid, hp.1.1]
    exact hne
  | scanned modemId storage startedAt =>
    obtain rfl := some.inj hop
    refine .of_sources (.deleteWhere fun e _ hp hb => hne ?_)
    simp only [and_eq_true, decide_eq_true_eq] at hp
    exact hp.1.1.1.1.symm.trans hb
  | pruned modemId clock =>
    obtain rfl := some.inj hop
    exact absurd rfl (hprune _ _ clock)
  | messageDeleted modemId messageId =>
    obtain rfl := some.inj hop
    exact ht.toLinked.untouched_withoutMessage hne messageId
  | modemDeleted modemId =>
    obtain rfl := some.inj hop
    exact untouched_withoutModemMessages hne
  | syncRecorded => exact .congr rfl rfl rfl rfl
  | eventRecorded => exact .congr rfl rfl rfl rfl
  | messageAdded message now =>
    obtain rfl := some.inj hop
    exact .of_messages (.insert hne)
  | messageRead modemId messageId now =>
    obtain rfl := some.inj hop
    refine .of_messages (.updateWhere ?_ ?_) <;>
      (intro m _ hp hb
       simp only [and_eq_true, decide_eq_true_eq] at hp
       exact hne (hp.1.2.symm.trans hb))
  | sourceDeleted => cases hop
  | claimed => cases hop
  | completed => cases hop

/-- **Isolation**: an operation for one modem leaves the rows of another one alone, unless it is
retention that finds something of the other modem to clean up. -/
theorem isolation_iff (hs : s.Reachable) (hne : a ≠ b) {op : Op} (hop : op.modem = some a) :
    Untouched b s.db.data (s.step op).db.data ↔
      ∀ receivedLimit sentLimit clock, op = .prune a receivedLimit sentLimit clock →
        1 ≤ receivedLimit → 1 ≤ sentLimit → NothingToClean s.windows clock b s.db.data := by
  constructor
  · rintro h receivedLimit sentLimit clock rfl hreceived hsent
    rw [State.step_prune hreceived hsent] at h
    exact (untouched_prune_iff hs.consistent hne s.windows receivedLimit sentLimit clock).mp h
  · intro h
    -- retention is the exception; it may also be refused and then changes nothing
    by_cases hprune : ∃ receivedLimit sentLimit clock, op = .prune a receivedLimit sentLimit clock
    · obtain ⟨receivedLimit, sentLimit, clock, rfl⟩ := hprune
      refine State.commit_induction (p := fun db => Untouched b s.db.data db.data)
        (.refl _) fun r db heq => ?_
      obtain ⟨hreceived, hsent, hdata⟩ := prune_eq_some heq
      rw [hdata, untouched_prune_iff hs.consistent hne]
      exact h receivedLimit sentLimit clock rfl hreceived hsent
    · refine (s.step_effect op).untouched s.db.valid hs.consistent hop hne
        fun receivedLimit sentLimit clock hop' => ?_
      exact hprune ⟨receivedLimit, sentLimit, clock, hop'⟩

/-! ## A deleted part -/

/-- Part 1 of 2 of a message for modem `b`. -/
def waitingPart : SmsSegment where
  modemId := ⟨[0x62], by decide⟩
  storage := [0x53, 0x4d]
  sourceIndex := 0
  pdu := [0x30]
  sender := [0x31, 0x32]
  timestamp := 100
  content := [0x41]
  reference := 7
  totalParts := 2
  partNumber := 1

/-- The state in which the part waits for the rest of its message. -/
def whileWaiting : State := run State.step State.initial [.importSegment waitingPart 1000 true]

/-- Both modems have a message, and modem `b` has a part that waits. -/
def bothModems : State :=
  let message := { waitingPart with totalParts := 1, sourceIndex := 1 }
  run State.step State.initial [.importSegment waitingPart 1000 true,
    .importSegment message 1000 true,
    .importSegment { message with modemId := ⟨[0x61], validId_a⟩ } 1000 true]

/-- Deleting all messages of one modem takes its message away and leaves the rows of the other. -/
theorem isolation_deleteModemMessages :
    let after := bothModems.step (.deleteModemMessages ⟨[0x61], validId_a⟩)
    (bothModems.db.data.messages.rows.map (·.row.modemId.name) = [[0x62], [0x61]] ∧
      after.db.data.messages.rows.map (·.row.modemId.name) = [[0x62]]) ∧
      Untouched waitingPart.modemId bothModems.db.data after.db.data := by
  have hreachable : bothModems.Reachable := ⟨_, rfl⟩
  refine ⟨⟨by decide +kernel, by decide +kernel⟩, (isolation_iff hreachable ?_ rfl).mpr ?_⟩
  · decide
  · intro _ _ _ h
    cases h

/-- Retention for modem `a`, more than an hour later. -/
def foreignPrune : Op := .prune ⟨[0x61], validId_a⟩ 100 100 ⟨5000, 5000, 5000⟩

/-- Retention for another modem deletes a part that waits for the rest of its message. -/
theorem foreignPart_not_untouched :
    ∃ (s : State) (a b : ModemId) (op : Op), s.Reachable ∧ a ≠ b ∧ op.modem = some a ∧
      ¬ Untouched b s.db.data (s.step op).db.data := by
  refine ⟨whileWaiting, ⟨[0x61], by decide⟩, waitingPart.modemId, foreignPrune, ⟨_, rfl⟩, by decide,
    rfl, fun h => ?_⟩
  have hbefore : ∃ g ∈ whileWaiting.db.data.groups.rows,
      g.row.modemId = waitingPart.modemId := by decide +kernel
  have hafter : ∀ g ∈ (whileWaiting.step foreignPrune).db.data.groups.rows,
      g.row.modemId ≠ waitingPart.modemId := by decide +kernel
  obtain ⟨g, hg, hmodem⟩ := hbefore
  exact hafter g ((h.groups g hmodem).mpr hg) hmodem

end QModem.Smsd
