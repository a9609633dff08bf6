import QModem.Smsd.Effects

/-!
# What Holds in Every Reachable Database

The schema does not say everything: the message of a group belongs to the modem of the group, it is
marked complete exactly when all parts are there, and a segment comes from a source of the modem its
group belongs to.  Every operation keeps this.
-/

namespace QModem.Smsd

open Lib Transaction Table Tables

variable {t u : Tables} {s : State} {groupId : ℕ}

/-! ## Lookups -/

theorem messageOfGroup_eq_some (hc : Constraints t) {m : Entry Message} :
    t.messageOfGroup groupId = some m ↔ m ∈ t.messages ∧ m.row.groupId = some groupId := by
  constructor
  · intro h
    obtain ⟨hm, hgroup⟩ := mem_of_find? h
    exact ⟨hm, by simpa using hgroup⟩
  · rintro ⟨hm, hgroup⟩
    refine find?_eq_some_of_unique hm (by simp [hgroup]) fun x hx hpx => ?_
    rw [hc.messages_group_unique.eq hx hm (by simpa using hpx) hgroup]

theorem messageOfGroup_eq_none :
    t.messageOfGroup groupId = none ↔ ∀ m ∈ t.messages, m.row.groupId ≠ some groupId := by
  simp [messageOfGroup, find?_eq_none]

variable {segment : SmsSegment} {g : Entry Group}

theorem lookupGroup_eq_some {w : Windows} {now : ℤ} (h : t.lookupGroup w segment now = some g) :
    g ∈ t.groups ∧ g.row.groupKey = segment.groupKey ∧
      now - w.lateFragmentWindow ≤ g.row.lastSeen ∧ t.isOpen g.id = true := by
  have hmem := List.mem_of_mem_head? (Option.mem_def.mpr h)
  simpa [and_assoc] using hmem

theorem segmentAt_isSome {partNumber : ℤ} :
    (t.segmentAt groupId partNumber).isSome = true ↔
      ∃ e ∈ t.segments, e.row.groupId = groupId ∧ e.row.partNumber = partNumber := by
  simp [segmentAt, isSome_find?]

/-! ## The messages after a publication -/

section Published

variable {g : Entry Group} {now : ℤ} {forwarding : Bool}

@[simp] theorem published_groups : (t.published g now forwarding).groups = t.groups := by
  unfold published
  split <;> [split; skip] <;> rfl

@[simp] theorem published_segments : (t.published g now forwarding).segments = t.segments := by
  unfold published
  split <;> [split; skip] <;> rfl

@[simp] theorem published_sources : (t.published g now forwarding).sources = t.sources := by
  unfold published
  split <;> [split; skip] <;> rfl

variable {e : Entry Message}

/-- Other messages are not touched. -/
theorem mem_published_of_ne (hc : Constraints t) (hne : e.row.groupId ≠ some g.id) :
    e ∈ (t.published g now forwarding).messages ↔ e ∈ t.messages := by
  unfold published
  split
  · rename_i m hm
    obtain ⟨hmem, hgroup⟩ := (messageOfGroup_eq_some hc).mp hm
    split
    · rfl
    · simp only [queued, reviseMessage, mem_updateWhere, decide_eq_true_eq, decide_eq_false_iff_not]
      constructor
      · rintro (⟨he, -⟩ | ⟨x, hx, hid, rfl⟩)
        · exact he
        · -- the revised row still belongs to the group
          obtain rfl := eq_of_id_eq hx hmem hid
          exact absurd hgroup hne
      · intro he
        refine .inl ⟨he, fun hid => hne ?_⟩
        rw [eq_of_id_eq he hmem hid, hgroup]
  · simp only [queued, insertMessage, mem_insert]
    constructor
    · rintro (he | rfl)
      · exact he
      · exact absurd rfl hne
    · exact .inl

/-- The message of the group shows its parts afterwards. -/
theorem published_shows (hc : Constraints t) (he : e ∈ (t.published g now forwarding).messages)
    (hgroup : e.row.groupId = some g.id) :
    e.row.content = t.groupContent g.id ∧ e.row.complete = t.hasAllParts g := by
  unfold published at he
  split at he
  · rename_i m hm
    obtain ⟨hmem, hmgroup⟩ := (messageOfGroup_eq_some hc).mp hm
    split at he
    · rename_i hsame
      obtain rfl := hc.messages_group_unique.eq he hmem hgroup hmgroup
      exact hsame
    · -- a group has one message, so no other row can be meant
      rcases mem_updateWhere.mp he with ⟨he, hid⟩ | ⟨x, hx, -, rfl⟩
      · rw [hc.messages_group_unique.eq he hmem hgroup hmgroup] at hid
        simp at hid
      · exact ⟨rfl, rfl⟩
  · rename_i hm
    rcases mem_insert.mp he with he | rfl
    · exact absurd hgroup (messageOfGroup_eq_none.mp hm e he)
    · exact ⟨rfl, rfl⟩

/-- There is a message for the group afterwards. -/
theorem exists_published (hc : Constraints t) :
    ∃ m ∈ (t.published g now forwarding).messages, m.row.groupId = some g.id := by
  unfold published
  split
  · rename_i m hm
    obtain ⟨hmem, hgroup⟩ := (messageOfGroup_eq_some hc).mp hm
    split
    · exact ⟨m, hmem, hgroup⟩
    · exact ⟨_, mem_updateWhere.mpr (.inr ⟨m, hmem, by simp, rfl⟩), hgroup⟩
  · exact ⟨_, mem_insert.mpr (.inr rfl), rfl⟩

/-- A message keeps its modem and its group, and a new one is received. -/
theorem published_origin (he : e ∈ (t.published g now forwarding).messages) :
    (∃ m ∈ t.messages, m.id = e.id ∧ m.row.groupId = e.row.groupId ∧
      m.row.modemId = e.row.modemId) ∨
    (e.row.groupId = some g.id ∧ e.row.modemId = g.row.modemId ∧ e.row.direction = .received) := by
  unfold published at he
  split at he
  · split at he
    · exact .inl ⟨e, he, rfl, rfl, rfl⟩
    · rcases mem_updateWhere.mp he with ⟨he, -⟩ | ⟨x, hx, -, rfl⟩
      · exact .inl ⟨e, he, rfl, rfl, rfl⟩
      · exact .inl ⟨x, hx, rfl, rfl, rfl⟩
  · rcases mem_insert.mp he with he | rfl
    · exact .inl ⟨e, he, rfl, rfl, rfl⟩
    · exact .inr ⟨rfl, rfl, rfl⟩

end Published

/-! ## Which rows belong together -/

/-- Groups have several parts, the message of a group belongs to its modem, and so do the sources of
its segments. -/
structure Linked (t : Tables) : Prop where
  total_parts : ∀ g ∈ t.groups, 1 < g.row.totalParts
  message_modem : ∀ m ∈ t.messages, ∀ g ∈ t.groups,
    m.row.groupId = some g.id → m.row.modemId = g.row.modemId
  segment_modem : ∀ e ∈ t.segments, ∀ g ∈ t.groups, ∀ source ∈ t.sources,
    e.row.groupId = g.id → e.row.sourceId = source.id → source.row.modemId = g.row.modemId

/-- Every row is an old one, up to columns that do not link it to others. -/
structure Within (u t : Tables) : Prop where
  groups : ∀ g ∈ u.groups, ∃ x ∈ t.groups, x.id = g.id ∧ x.row.modemId = g.row.modemId ∧
    x.row.totalParts = g.row.totalParts
  messages : ∀ m ∈ u.messages, ∃ x ∈ t.messages, x.row.groupId = m.row.groupId ∧
    x.row.modemId = m.row.modemId ∧ x.row.complete = m.row.complete
  segments : ∀ e ∈ u.segments, e ∈ t.segments
  sources : ∀ e ∈ u.sources, ∃ x ∈ t.sources, x.id = e.id ∧ x.row.modemId = e.row.modemId

theorem Within.refl (t : Tables) : Within t t where
  groups g hg := ⟨g, hg, rfl, rfl, rfl⟩
  messages m hm := ⟨m, hm, rfl, rfl, rfl⟩
  segments _ he := he
  sources e he := ⟨e, he, rfl, rfl⟩

/-- Deleting rows and changing other columns keeps the links. -/
theorem Linked.within (h : Linked t) (hsub : Within u t) : Linked u where
  total_parts g hg := by
    obtain ⟨x, hx, -, -, htotal⟩ := hsub.groups g hg
    rw [← htotal]
    exact h.total_parts x hx
  -- the rows that are linked were linked before
  message_modem m hm g hg hlink := by
    obtain ⟨x, hx, hid, hmodem, -⟩ := hsub.groups g hg
    obtain ⟨y, hy, hgroup, hmodem', -⟩ := hsub.messages m hm
    rw [← hmodem, ← hmodem']
    exact h.message_modem y hy x hx (by rw [hgroup, hlink, hid])
  segment_modem e he g hg source hsource hgroup hlink := by
    obtain ⟨x, hx, hid, hmodem, -⟩ := hsub.groups g hg
    obtain ⟨y, hy, hid', hmodem'⟩ := hsub.sources source hsource
    rw [← hmodem, ← hmodem']
    exact h.segment_modem e (hsub.segments e he) x hx y hy (hgroup.trans hid.symm)
      (hlink.trans hid'.symm)

section Statements

theorem within_updateSources {p : Entry Source → Bool} {f : Source → Source}
    (hf : ∀ x, (f x).modemId = x.modemId) :
    Within { t with sources := t.sources.updateWhere p f } t :=
  { Within.refl t with
    sources := fun e he => by
      rcases mem_updateWhere.mp he with ⟨he, -⟩ | ⟨x, hx, -, rfl⟩
      · exact ⟨e, he, rfl, rfl⟩
      · exact ⟨x, hx, rfl, (hf x.row).symm⟩ }

theorem within_touchSource (sourceId : ℕ) (now : ℤ) : Within (t.touchSource sourceId now) t :=
  within_updateSources fun _ => rfl

theorem within_commitSource (sourceId : ℕ) : Within (t.commitSource sourceId) t :=
  within_updateSources fun _ => rfl

theorem within_markDeleted (sourceId : ℕ) (deletedAt : ℤ) :
    Within (t.markDeleted sourceId deletedAt) t :=
  within_updateSources fun _ => rfl

theorem within_touchGroup (groupId : ℕ) (now : ℤ) : Within (t.touchGroup groupId now) t :=
  { Within.refl t with
    groups := fun e he => by
      rcases mem_updateWhere.mp he with ⟨he, -⟩ | ⟨x, hx, -, rfl⟩
      · exact ⟨e, he, rfl, rfl, rfl⟩
      · exact ⟨x, hx, rfl, rfl, rfl⟩ }

theorem within_setRead (modemId : ModemId) (messageId : ℕ) (now : ℤ) :
    Within (t.setRead modemId messageId now) t :=
  { Within.refl t with
    messages := fun m hm => by
      rcases mem_updateWhere.mp hm with ⟨hm, -⟩ | ⟨x, hx, -, rfl⟩
      · exact ⟨m, hm, rfl, rfl, rfl⟩
      · exact ⟨x, hx, rfl, rfl, rfl⟩ }

theorem within_deleteMessages (p : Entry Message → Bool) : Within (t.deleteMessages p) t :=
  { Within.refl t with
    messages := fun m hm => ⟨m, (mem_deleteWhere.mp hm).1, rfl, rfl, rfl⟩ }

theorem within_deleteSegments (p : Entry Segment → Bool) :
    Within { t with segments := t.segments.deleteWhere p } t :=
  { Within.refl t with segments := fun _ he => (mem_deleteWhere.mp he).1 }

theorem within_deleteGroups (p : Entry Group → Bool) :
    Within { t with groups := t.groups.deleteWhere p } t :=
  { Within.refl t with
    groups := fun g hg => ⟨g, (mem_deleteWhere.mp hg).1, rfl, rfl, rfl⟩ }

theorem within_deleteSources (p : Entry Source → Bool) :
    Within { t with sources := t.sources.deleteWhere p } t :=
  { Within.refl t with sources := fun e he => ⟨e, (mem_deleteWhere.mp he).1, rfl, rfl⟩ }

end Statements

/-! ### New rows -/

/-- A new source is not yet used by a segment. -/
theorem Linked.registered (h : Linked t) (hc : Constraints t) (segment : SmsSegment) (now : ℤ) :
    Linked (t.registered segment now) where
  total_parts := h.total_parts
  message_modem := h.message_modem
  segment_modem e he g hg source hsource hgroup hlink := by
    rcases mem_insert.mp hsource with hsource | rfl
    · exact h.segment_modem e he g hg source hsource hgroup hlink
    · have hid := hc.segments_source e he _ rfl
      rw [hlink] at hid
      exact absurd hid t.sources.nextId_notMem_ids

/-- Nothing is linked to a new group yet. -/
theorem Linked.insertGroup (h : Linked t) (hc : Constraints t) (hmany : 1 < segment.totalParts)
    (now : ℤ) : Linked (t.insertGroup segment now) where
  total_parts g hg := by
    rcases mem_insert.mp hg with hg | rfl
    · exact h.total_parts g hg
    · exact hmany
  -- the key of the new group is in no message, by the foreign key
  message_modem m hm g hg hlink := by
    rcases mem_insert.mp hg with hg | rfl
    · exact h.message_modem m hm g hg hlink
    · exact absurd (hc.messages_group m hm _ hlink) t.groups.nextId_notMem_ids
  segment_modem e he g hg source hsource hgroup hlink := by
    rcases mem_insert.mp hg with hg | rfl
    · exact h.segment_modem e he g hg source hsource hgroup hlink
    · have hid := hc.segments_group e he _ rfl
      rw [hgroup] at hid
      exact absurd hid t.groups.nextId_notMem_ids

/-- A segment may link a source and a group of the same modem. -/
theorem Linked.insertSegment (h : Linked t) {groupId sourceId : ℕ}
    (hmodem : ∀ g ∈ t.groups, ∀ source ∈ t.sources, g.id = groupId → source.id = sourceId →
      source.row.modemId = g.row.modemId) : Linked (t.insertSegment segment groupId sourceId) where
  total_parts := h.total_parts
  message_modem := h.message_modem
  segment_modem e he g hg source hsource hgroup hlink := by
    simp only [Tables.insertSegment] at he
    split at he
    · exact h.segment_modem e he g hg source hsource hgroup hlink
    · rcases mem_insert.mp he with he | rfl
      · exact h.segment_modem e he g hg source hsource hgroup hlink
      · exact hmodem g hg source hsource hgroup.symm hlink.symm

theorem Linked.insertMessage (h : Linked t) {message : Message} (hloose : message.groupId = none) :
    Linked (t.insertMessage message) where
  total_parts := h.total_parts
  message_modem m hm g hg hlink := by
    rcases mem_insert.mp hm with hm | rfl
    · exact h.message_modem m hm g hg hlink
    · rw [hloose] at hlink
      cases hlink
  segment_modem := h.segment_modem

/-- The new message belongs to the modem of its group. -/
theorem Linked.published (h : Linked t) (hg : g ∈ t.groups) (now : ℤ) (forwarding : Bool) :
    Linked (t.published g now forwarding) where
  total_parts x hx := h.total_parts x (by simpa using hx)
  message_modem m hm x hx hlink := by
    rw [published_groups] at hx
    rcases published_origin hm with ⟨y, hy, -, hgroup, hmodem⟩ | ⟨hgroup, hmodem, -⟩
    · rw [← hmodem]
      exact h.message_modem y hy x hx (hgroup.trans hlink)
    · rw [hmodem, eq_of_id_eq hg hx (Option.some.inj (hgroup.symm.trans hlink))]
  segment_modem := by simpa using h.segment_modem

/-! ## Which messages are complete -/

/-- The message of a group is marked complete exactly when all parts are there; one group may be
left out. -/
def MarkedBut (p : ℕ → Prop) (t : Tables) : Prop :=
  ∀ m ∈ t.messages, ∀ g ∈ t.groups, m.row.groupId = some g.id → ¬ p g.id →
    m.row.complete = t.hasAllParts g

/-- What the schema leaves to the operations. -/
structure Consistent (t : Tables) : Prop extends Linked t where
  marked : MarkedBut (fun _ => False) t

theorem hasAllParts_congr {g g' : Entry Group} (hid : g'.id = g.id)
    (htotal : g'.row.totalParts = g.row.totalParts) (hcount : u.partCount g.id = t.partCount g.id) :
    u.hasAllParts g = t.hasAllParts g' := by
  rw [hasAllParts, hasAllParts, hcount, hid, htotal]

theorem MarkedBut.within {p : ℕ → Prop} (h : MarkedBut p t) (hsub : Within u t)
    (hcount : ∀ g ∈ u.groups, (∃ m ∈ u.messages, m.row.groupId = some g.id) → ¬ p g.id →
      u.partCount g.id = t.partCount g.id) : MarkedBut p u := by
  intro m hm g hg hlink hp
  obtain ⟨x, hx, hid, -, htotal⟩ := hsub.groups g hg
  obtain ⟨y, hy, hgroup, -, hcomplete⟩ := hsub.messages m hm
  rw [← hcomplete, hasAllParts_congr hid htotal (hcount g hg ⟨m, hm, hlink⟩ hp)]
  exact h y hy x hx (by rw [hgroup, hlink, hid]) (by rwa [hid])

/-- Statements that leave the segments alone keep everything. -/
theorem Consistent.within (h : Consistent t) (hsub : Within u t)
    (hsegments : u.segments = t.segments) : Consistent u where
  toLinked := h.toLinked.within hsub
  marked := h.marked.within hsub fun g _ _ _ => by rw [partCount, hsegments]; rfl

/-- The other tables do not matter. -/
theorem Consistent.congr (h : Consistent t) (hgroups : u.groups = t.groups)
    (hmessages : u.messages = t.messages) (hsegments : u.segments = t.segments)
    (hsources : u.sources = t.sources) : Consistent u := by
  refine h.within ⟨?_, ?_, ?_, ?_⟩ hsegments
  · rw [hgroups]
    exact (Within.refl t).groups
  · rw [hmessages]
    exact (Within.refl t).messages
  · rw [hsegments]
    exact (Within.refl t).segments
  · rw [hsources]
    exact (Within.refl t).sources

/-- Publishing marks the group that was left out. -/
theorem MarkedBut.published (h : MarkedBut (· = g.id) t) (hc : Constraints t) (hg : g ∈ t.groups)
    (now : ℤ) (forwarding : Bool) : MarkedBut (fun _ => False) (t.published g now forwarding) := by
  intro m hm x hx hlink _
  rw [published_groups] at hx
  have hparts : (t.published g now forwarding).hasAllParts x = t.hasAllParts x := by
    rw [hasAllParts, partCount, published_segments]
    rfl
  rw [hparts]
  -- its own message is written; those of the other groups stay
  by_cases hid : x.id = g.id
  · obtain rfl := eq_of_id_eq hx hg hid
    exact (published_shows hc hm hlink).2
  · have hne : m.row.groupId ≠ some g.id := by
      rw [hlink]
      exact fun heq => hid (Option.some.inj heq)
    exact h m ((mem_published_of_ne hc hne).mp hm) x hx hlink hid

theorem MarkedBut.mono {p q : ℕ → Prop} (h : MarkedBut p t) (hpq : ∀ n, p n → q n) :
    MarkedBut q t :=
  fun m hm g hg hlink hq => h m hm g hg hlink fun hp => hq (hpq _ hp)

theorem Consistent.published (h : Consistent t) (hc : Constraints t) (hg : g ∈ t.groups) (now : ℤ)
    (forwarding : Bool) : Consistent (t.published g now forwarding) where
  toLinked := h.toLinked.published hg now forwarding
  marked := (h.marked.mono fun _ hf => hf.elim).published hc hg now forwarding

theorem PublishedAll.consistent {now : ℤ} {forwarding : Bool} {ids : List ℕ}
    (h : PublishedAll now forwarding ids t u) (hc : Constraints t) (ht : Consistent t) :
    Consistent u := by
  induction h with
  | nil => exact ht
  | cons g hg hvalid _ ih => exact ih hvalid (ht.published hc hg now forwarding)

/-! ### A new part -/

section Part

variable {w : Windows} {segment : SmsSegment} {sourceId groupId : ℕ} {now : ℤ}

section

variable (h : GroupFor w segment now t groupId u)

include h

/-- The group `find_group` chooses has the key of the segment. -/
theorem GroupFor.key (hg : g ∈ u.groups) (hid : g.id = groupId) :
    g.row.groupKey = segment.groupKey := by
  cases h with
  | found x hlookup =>
    obtain ⟨hx, hkey, -⟩ := lookupGroup_eq_some hlookup
    rw [eq_of_id_eq hg hx hid, hkey]
  | created hlookup hvalid =>
    rcases mem_insert.mp hg with hg | rfl
    · exact absurd hid (id_lt_nextId hg).ne
    · rfl

/-- A group without parts breaks nothing. -/
theorem GroupFor.consistent (hc : Constraints t) (ht : Consistent t)
    (hmany : 1 < segment.totalParts) : Consistent u := by
  cases h with
  | found x hlookup => exact ht
  | created hlookup hvalid =>
    refine ⟨ht.toLinked.insertGroup hc hmany now, ?_⟩
    intro m hm g hg hlink hp
    rcases mem_insert.mp hg with hg | rfl
    · exact ht.marked m hm g hg hlink hp
    · exact absurd (hc.messages_group m hm _ hlink) t.groups.nextId_notMem_ids

theorem GroupFor.exists_group : ∃ g ∈ u.groups, g.id = groupId := by
  cases h with
  | found x hlookup => exact ⟨x, (lookupGroup_eq_some hlookup).1, rfl⟩
  | created hlookup hvalid => exact ⟨_, mem_insert.mpr (.inr rfl), rfl⟩

/-- Only the group table changes. -/
theorem GroupFor.other_tables :
    u.sources = t.sources ∧ u.segments = t.segments ∧ u.messages = t.messages ∧
      u.deliveries = t.deliveries := by
  cases h <;> exact ⟨rfl, rfl, rfl, rfl⟩

end

theorem PartStored.sources {forwarding : Bool}
    (h : PartStored w segment sourceId now forwarding t u) : u.sources = t.sources := by
  cases h with
  | waiting hgroup hcount => exact hgroup.other_tables.1
  | published hgroup hvalid hcount g hg hid =>
    rw [published_sources]
    exact hgroup.other_tables.1

theorem total_eq_totalParts (hmany : 1 < segment.total) :
    segment.total = segment.totalParts ∧ 1 < segment.totalParts := by
  unfold SmsSegment.total at *
  split at hmany
  · exact ⟨by rw [if_pos ‹_›], ‹_›⟩
  · omega

theorem le_partCount_withPart (n : ℕ) :
    t.partCount n ≤ (t.withPart segment groupId sourceId now).partCount n := by
  simp only [partCount, withPart, touchGroup, insertSegment]
  split
  · rfl
  · rw [select_insert, List.length_append]
    omega

theorem partCount_withPart_of_ne {n : ℕ} (hne : n ≠ groupId) :
    (t.withPart segment groupId sourceId now).partCount n = t.partCount n := by
  simp only [partCount, withPart, touchGroup, insertSegment]
  split
  · rfl
  · have hother : ¬ decide ((segment.asPart groupId sourceId).groupId = n) = true := by
      rw [decide_eq_true_eq]
      exact hne.symm
    rw [select_insert, if_neg hother, List.append_nil]

theorem MarkedBut.withPart (h : MarkedBut (fun _ => False) t) :
    MarkedBut (· = groupId) (t.withPart segment groupId sourceId now) := by
  intro m hm g hg hlink hne
  obtain ⟨x, hx, hid, -, htotal⟩ := (within_touchGroup groupId now).groups g hg
  rw [hasAllParts_congr hid htotal (partCount_withPart_of_ne hne)]
  exact h m hm x hx (by rw [hlink, hid]) id

/-- As long as parts are missing, the message of the group stays incomplete. -/
theorem MarkedBut.withPart_waiting (h : MarkedBut (fun _ => False) t)
    (htotal : ∀ g ∈ t.groups, g.id = groupId → g.row.totalParts = segment.total)
    (hcount : ¬ segment.total ≤ (t.withPart segment groupId sourceId now).partCount groupId) :
    MarkedBut (fun _ => False) (t.withPart segment groupId sourceId now) := by
  intro m hm g hg hlink hp
  by_cases hid : g.id = groupId
  · obtain ⟨x, hx, hxid, -, hxtotal⟩ := (within_touchGroup groupId now).groups g hg
    have hle := @le_partCount_withPart t segment sourceId groupId now groupId
    have hbefore := h m hm x hx (by rw [hlink, hxid]) id
    have htotal' := htotal x hx (hxid.trans hid)
    rw [hbefore, hasAllParts, hasAllParts, ← hxtotal, htotal', hxid, hid]
    rw [decide_eq_false hcount, decide_eq_false (by omega)]
  · exact h.withPart m hm g hg hlink hid

theorem Linked.withPart (h : Linked t)
    (hmodem : ∀ g ∈ t.groups, ∀ source ∈ t.sources, g.id = groupId → source.id = sourceId →
      source.row.modemId = g.row.modemId) :
    Linked (t.withPart segment groupId sourceId now) :=
  (h.insertSegment hmodem).within (within_touchGroup groupId now)

/-- The group and the source of a new segment belong to the modem of the segment. -/
theorem GroupFor.linked_withPart (h : GroupFor w segment now t groupId u) (hc : Constraints t)
    (ht : Consistent t) (hparts : 1 < segment.totalParts)
    (hsource : ∀ e ∈ t.sources, e.id = sourceId → e.row.modemId = segment.modemId) :
    Linked (u.withPart segment groupId sourceId now) := by
  refine (h.consistent hc ht hparts).toLinked.withPart fun g hg source hmem hgid hsid => ?_
  rw [h.other_tables.1] at hmem
  rw [hsource source hmem hsid]
  exact (congrArg Prod.fst (h.key hg hgid)).symm

/-- A part that completes the group publishes it, and otherwise the mark does not change. -/
theorem PartStored.consistent {forwarding : Bool}
    (h : PartStored w segment sourceId now forwarding t u) (hc : Constraints t)
    (ht : Consistent t) (hmany : 1 < segment.total)
    (hsource : ∀ e ∈ t.sources, e.id = sourceId → e.row.modemId = segment.modemId) :
    Consistent u := by
  -- the number of parts as the segment says and as it is stored
  obtain ⟨htotal, hparts⟩ := total_eq_totalParts hmany
  cases h with
  | waiting hgroup hcount =>
    refine ⟨hgroup.linked_withPart hc ht hparts hsource,
      (hgroup.consistent hc ht hparts).marked.withPart_waiting ?_ hcount⟩
    intro g hg hid
    rw [htotal]
    exact congrArg (fun k => k.2.2.2) (hgroup.key hg hid)
  | published hgroup hvalid hcount g hg hid =>
    subst hid
    exact ⟨(hgroup.linked_withPart hc ht hparts hsource).published hg now forwarding,
      (hgroup.consistent hc ht hparts).marked.withPart.published hvalid hg now forwarding⟩

end Part

theorem Consistent.registered (h : Consistent t) (hc : Constraints t) (segment : SmsSegment)
    (now : ℤ) : Consistent (t.registered segment now) where
  toLinked := h.toLinked.registered hc segment now
  marked := h.marked

theorem Consistent.insertMessage (h : Consistent t) {message : Message}
    (hloose : message.groupId = none) : Consistent (t.insertMessage message) where
  toLinked := h.toLinked.insertMessage hloose
  marked := by
    intro m hm g hg hlink hp
    rcases mem_insert.mp hm with hm | rfl
    · exact h.marked m hm g hg hlink hp
    · rw [hloose] at hlink
      cases hlink

/-- A segment leaves consistent tables. -/
theorem Imported.consistent {w : Windows} {now : ℤ} {forwarding : Bool} {r : ImportResult}
    (h : Imported w segment now forwarding t r u) (hc : Constraints t) (ht : Consistent t) :
    Consistent u := by
  cases h with
  | duplicate source hsource hdup =>
    have hmodem : Consistent (t.ensureModem segment.modemId) := ht.congr rfl rfl rfl rfl
    exact hmodem.within (within_touchSource source.id now) rfl
  | single hnew hone hdup =>
    have hmessage : Consistent ((t.registered segment now).insertMessage
        (singleMessage segment now)) := (ht.registered hc segment now).insertMessage rfl
    have hqueued : Consistent (((t.registered segment now).insertMessage
        (singleMessage segment now)).queued forwarding t.messages.nextId 1 now) :=
      hmessage.congr rfl rfl rfl rfl
    exact hqueued.within (within_commitSource _) rfl
  | part hnew hmany hdup hlow hhigh hvalid hstored =>
    refine (hstored.consistent hvalid (ht.registered hc segment now) hmany ?_).within
      (within_commitSource _) rfl
    intro e he hid
    -- the source has just been inserted for this segment
    rcases mem_insert.mp he with he | rfl
    · exact absurd hid (id_lt_nextId he).ne
    · rfl

/-! ### Removals -/

theorem hasMessage_eq_true :
    t.hasMessage groupId = true ↔ ∃ m ∈ t.messages, m.row.groupId = some groupId := by
  simp [hasMessage, mem_rows]

theorem partCount_deleteSegments {p : Entry Segment → Bool} {n : ℕ}
    (h : ∀ e ∈ t.segments, e.row.groupId = n → p e = false) :
    Tables.partCount { t with segments := t.segments.deleteWhere p } n = t.partCount n := by
  rw [partCount, partCount, select_deleteWhere]
  intro e he hgroup
  exact h e he (by simpa using hgroup)

section

variable (h : Consistent t)

include h

/-- Segments can be deleted when none of their groups has a message. -/
theorem Consistent.deleteSegments {p : Entry Segment → Bool}
    (hfree : ∀ e ∈ t.segments, p e = true → ∀ m ∈ t.messages, m.row.groupId ≠ some e.row.groupId) :
    Consistent { t with segments := t.segments.deleteWhere p } where
  toLinked := h.toLinked.within (within_deleteSegments p)
  marked := by
    refine h.marked.within (within_deleteSegments p) fun g _ hmessage _ => ?_
    refine partCount_deleteSegments fun e he hgroup => ?_
    obtain ⟨m, hm, hlink⟩ := hmessage
    by_contra hdeleted
    exact hfree e he (by simpa using hdeleted) m hm (by rw [hlink, hgroup])

theorem Consistent.deleteMessages (p : Entry Message → Bool) : Consistent (t.deleteMessages p) :=
  h.within (within_deleteMessages p) rfl

theorem Consistent.deleteGroups (p : Entry Group → Bool) :
    Consistent { t with groups := t.groups.deleteWhere p } :=
  h.within (within_deleteGroups p) rfl

/-- Only groups without a message are cleaned up, so no mark can become wrong. -/
theorem Consistent.withoutOrphans (before : ℤ) (clock : PruneClock) :
    Consistent (t.withoutOrphans before clock) := by
  have hsegments : Consistent (t.deleteOrphanSegments before) := by
    refine h.deleteSegments fun e he hdeleted m hm hlink => ?_
    obtain ⟨g, -, hg⟩ := List.any_eq_true.mp hdeleted
    simp only [Bool.and_eq_true, decide_eq_true_eq, isOrphan, Bool.not_eq_true'] at hg
    -- a deleted segment would belong to a group with a message
    have hmessage : t.hasMessage g.id = true :=
      hasMessage_eq_true.mpr ⟨m, hm, by rw [hlink, hg.1]⟩
    rw [hg.2.1] at hmessage
    cases hmessage
  have hgroups : Consistent ((t.deleteOrphanSegments before).deleteOrphanGroups before) :=
    hsegments.deleteGroups _
  have hsources : Consistent (((t.deleteOrphanSegments before).deleteOrphanGroups
      before).deleteStaleSources clock.sources) :=
    hgroups.within (within_deleteSources _) rfl
  exact hsources.congr rfl rfl rfl rfl

/-- Without its message a group loses its parts, too. -/
theorem Consistent.withoutMessage (hc : Constraints t) (modemId : ModemId) (messageId : ℕ) :
    Consistent (t.withoutMessage modemId messageId) := by
  unfold Tables.withoutMessage
  have hdeleted := h.deleteMessages fun m => m.id = messageId && m.row.modemId = modemId
  split
  · rename_i groupId hfound
    refine .deleteGroups (hdeleted.deleteSegments ?_) _
    -- the deleted message was the only one of its group
    obtain ⟨x, hx, hgroup⟩ := Option.bind_eq_some_iff.mp hfound
    obtain ⟨hmem, hp⟩ := mem_of_find? hx
    intro e _ he m hm hlink
    rw [decide_eq_true_eq] at he
    obtain ⟨hm, hkept⟩ := mem_deleteWhere.mp hm
    rw [hc.messages_group_unique.eq hm hmem (hlink.trans (congrArg some he)) hgroup] at hkept
    rw [hkept] at hp
    cases hp
  · exact hdeleted

theorem Consistent.withoutModemMessages (modemId : ModemId) :
    Consistent (t.withoutModemMessages modemId) := by
  refine .deleteGroups ((h.deleteMessages (·.row.modemId = modemId)).deleteSegments ?_) _
  intro e _ hdeleted m hm hlink
  obtain ⟨g, hg, hmodem⟩ := List.any_eq_true.mp hdeleted
  simp only [Bool.and_eq_true, decide_eq_true_eq] at hmodem
  obtain ⟨hm, hkept⟩ := mem_deleteWhere.mp hm
  rw [decide_eq_false_iff_not] at hkept
  exact hkept ((h.message_modem m hm g hg (by rw [hlink, hmodem.1])).trans hmodem.2)

end

theorem Claimed.consistent {clock : ClaimClock} {r : Option Claim} (h : Claimed clock t r u)
    (ht : Consistent t) : Consistent u := by
  cases h <;> exact ht.congr rfl rfl rfl rfl

/-! ## Reachable states -/

@[simp] theorem State.commit_windows {α : Type} (tx : Tx α) :
    (s.commit tx).windows = s.windows := by
  unfold State.commit
  split <;> rfl

/-- The database after a transaction that succeeds. -/
theorem State.commit_of_eq {α : Type} {tx : Tx α} {r : α} {db : Database}
    (h : tx s.db = some (r, db)) : (s.commit tx).db = db := by
  simp only [State.commit, h]

/-- A transaction that changes something has succeeded. -/
theorem State.commit_of_ne {α : Type} {tx : Tx α} (h : (s.commit tx).db ≠ s.db) :
    ∃ r db, tx s.db = some (r, db) ∧ (s.commit tx).db = db := by
  unfold State.commit at *
  split at h
  · rename_i r db heq
    exact ⟨r, db, heq, rfl⟩
  · exact absurd rfl h

/-- **Every operation leaves consistent tables.** -/
theorem Effect.consistent {w : Windows} {op : Op} (h : Effect w t op u) (hc : Constraints t)
    (ht : Consistent t) : Consistent u := by
  cases h with
  | unchanged => exact ht
  | imported h => exact h.consistent hc ht
  | published h => exact h.consistent hc ht
  | scanned modemId storage startedAt => exact ht.within (within_deleteSources _) rfl
  -- two limits, then the clean-up
  | pruned modemId clock =>
    exact ((ht.deleteMessages _).deleteMessages _).withoutOrphans _ clock
  | sourceDeleted sourceId deletedAt => exact ht.within (within_markDeleted sourceId deletedAt) rfl
  | messageDeleted modemId messageId => exact ht.withoutMessage hc modemId messageId
  | modemDeleted modemId => exact ht.withoutModemMessages modemId
  | syncRecorded => exact ht.congr rfl rfl rfl rfl
  | eventRecorded => exact ht.congr rfl rfl rfl rfl
  | messageAdded message now => exact ht.insertMessage rfl
  | messageRead modemId messageId now => exact ht.within (within_setRead modemId messageId now) rfl
  | claimed worker h => exact h.consistent ht
  | completed => exact ht.congr rfl rfl rfl rfl

theorem Consistent.step (h : Consistent s.db.data) (op : Op) :
    Consistent (s.step op).db.data :=
  (s.step_effect op).consistent s.db.valid h

/-- **Consistency**: every database the daemon can get into is consistent. -/
theorem State.Reachable.consistent (h : s.Reachable) : Consistent s.db.data := by
  obtain ⟨ops, rfl⟩ := h
  refine run_invariant_of_step (p := fun s : State => Consistent s.db.data) ?_
    fun s op hs => hs.step op
  refine ⟨⟨?_, ?_, ?_⟩, ?_⟩
  · exact fun g hg => absurd hg notMem_empty
  · exact fun m hm => absurd hm notMem_empty
  · exact fun e he => absurd he notMem_empty
  · exact fun m hm => absurd hm notMem_empty

end QModem.Smsd
