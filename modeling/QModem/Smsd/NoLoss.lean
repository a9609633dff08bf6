import QModem.Smsd.Invariants

/-!
# Is an Imported Segment Kept?

When `sms_db_import_segment` reports `safe_to_delete`, the daemon deletes the message from the
modem. The row for a part is written with `INSERT OR IGNORE` under the key of group and part number:
when the slot is taken, by a part of an older message with the same reference for example, the new
part is dropped without an error.

## Main results

- `import_kept_iff`: exactly when the content is in the database afterwards
- `reusedReference_not_kept`: a part that is lost
-/

namespace QModem.Smsd

open Lib Transaction

/-! ## Stored content -/

/-- The group has the key of the segment: its modem, sender, reference and number of parts. -/
def Collects (t : Tables) (segment : SmsSegment) (groupId : ℕ) : Prop :=
  ∃ g ∈ t.groups, g.id = groupId ∧ g.row.groupKey = segment.groupKey

instance (t : Tables) (segment : SmsSegment) (groupId : ℕ) : Decidable (Collects t segment groupId) :=
  inferInstanceAs (Decidable (∃ g ∈ t.groups.rows, _))

/-- The segment is a row of a group with its key. -/
def StoredAsPart (t : Tables) (segment : SmsSegment) : Prop :=
  ∃ e ∈ t.segments, Collects t segment e.row.groupId ∧ e.row.partNumber = segment.partNumber ∧
    e.row.content = segment.content

/-- The message was received and has the content of the segment in it.  It is that of a group with
the key of the segment, or a message of its own from the same sender. -/
def Carries (t : Tables) (segment : SmsSegment) (m : Message) : Prop :=
  m.direction = .received ∧ segment.content <:+: m.content ∧
    ((∃ groupId ∈ m.groupId, Collects t segment groupId) ∨
      m.groupId = none ∧ segment.total ≤ 1 ∧ m.modemId = segment.modemId ∧
        m.sender = some segment.sender)

instance (t : Tables) (segment : SmsSegment) (m : Message) : Decidable (Carries t segment m) :=
  inferInstanceAs (Decidable (_ ∧ _ ∧ (_ ∨ _)))

/-- The content of the segment is inside a received message of its sender and group. -/
def StoredInMessage (t : Tables) (segment : SmsSegment) : Prop :=
  ∃ m ∈ t.messages, Carries t segment m.row

def Stored (t : Tables) (segment : SmsSegment) : Prop :=
  StoredAsPart t segment ∨ StoredInMessage t segment

instance (t : Tables) (segment : SmsSegment) : Decidable (StoredAsPart t segment) :=
  inferInstanceAs (Decidable (∃ e ∈ t.segments.rows, _))

instance (t : Tables) (segment : SmsSegment) : Decidable (StoredInMessage t segment) :=
  inferInstanceAs (Decidable (∃ m ∈ t.messages.rows, _))

instance (t : Tables) (segment : SmsSegment) : Decidable (Stored t segment) :=
  inferInstanceAs (Decidable (_ ∨ _))

/-- The source was known before, or the content is stored afterwards. -/
def ImportKept (t u : Tables) (segment : SmsSegment) : Prop :=
  (t.sourceOf segment).isSome = true ∨ Stored u segment

instance (t u : Tables) (segment : SmsSegment) : Decidable (ImportKept t u segment) :=
  inferInstanceAs (Decidable (_ ∨ _))

/-- The segment has a place of its own, or its content is in the database anyway. -/
def HasPlace (w : Windows) (t : Tables) (segment : SmsSegment) (now : ℤ) : Prop :=
  (t.sourceOf segment).isSome = true ∨ segment.total ≤ 1 ∨
    (∀ g, t.lookupGroup w segment now = some g →
      t.segmentAt g.id segment.partNumber = none) ∨
    Stored t segment ∨
    ∃ g, t.lookupGroup w segment now = some g ∧ segment.total ≤ t.partCount g.id ∧
      segment.content <:+: t.groupContent g.id

variable {w : Windows} {segment : SmsSegment} {sourceId groupId : ℕ} {now : ℤ} {forwarding : Bool}
  {t u : Tables}

theorem Stored.congr (hsegments : u.segments = t.segments) (hgroups : u.groups = t.groups)
    (hmessages : u.messages = t.messages) : Stored u segment ↔ Stored t segment := by
  simp only [Stored, StoredAsPart, StoredInMessage, Carries, Collects, hsegments, hgroups, hmessages]

/-- Touching a group does not change its key. -/
theorem collects_touchGroup {other : ℕ} :
    Collects (t.touchGroup groupId now) segment other ↔ Collects t segment other := by
  constructor
  · rintro ⟨g, hg, hid, hkey⟩
    rcases Table.mem_updateWhere.mp hg with ⟨hg, -⟩ | ⟨x, hx, -, rfl⟩
    · exact ⟨g, hg, hid, hkey⟩
    · exact ⟨x, hx, hid, hkey⟩
  · rintro ⟨g, hg, hid, hkey⟩
    by_cases htouched : g.id = groupId
    · exact ⟨_, Table.mem_updateWhere.mpr (.inr ⟨g, hg, by simpa using htouched, rfl⟩), hid, hkey⟩
    · exact ⟨g, Table.mem_updateWhere.mpr (.inl ⟨hg, by simpa using htouched⟩), hid, hkey⟩

theorem stored_touchGroup : Stored (t.touchGroup groupId now) segment ↔ Stored t segment := by
  simp only [Stored, StoredAsPart, StoredInMessage, Carries, collects_touchGroup]
  rfl

/-- A part that finds its slot free is stored. -/
theorem storedAsPart_of_free (hgroup : GroupFor w segment now t groupId u)
    (hfree : u.segmentAt groupId segment.partNumber = none)
    (hexists : ∃ g ∈ u.groups, g.id = groupId) :
    StoredAsPart (u.withPart segment groupId sourceId now) segment := by
  obtain ⟨g, hg, hid⟩ := hexists
  refine ⟨⟨u.segments.nextId, segment.asPart groupId sourceId⟩, ?_,
    collects_touchGroup.mpr ⟨g, hg, hid, hgroup.key hg hid⟩, rfl, rfl⟩
  simp only [Tables.withPart, Tables.insertSegment, hfree, Option.isSome_none, Bool.false_eq_true,
    if_false]
  exact Table.mem_insert.mpr (.inr rfl)

/-- A part whose slot is taken changes nothing but the time of its group. -/
theorem withPart_of_taken (htaken : t.segmentAt groupId segment.partNumber ≠ none) :
    t.withPart segment groupId sourceId now = t.touchGroup groupId now := by
  have hsome : (t.segmentAt groupId segment.partNumber).isSome = true :=
    Option.isSome_iff_ne_none.mpr htaken
  simp only [Tables.withPart, Tables.insertSegment, hsome, if_true]

/-- A new group has all its slots free. -/
theorem segmentAt_insertGroup (hc : Constraints t) (partNumber : ℤ) :
    (t.insertGroup segment now).segmentAt t.groups.nextId partNumber = none := by
  rw [← Option.not_isSome_iff_eq_none, segmentAt_isSome]
  rintro ⟨e, he, hgroup, -⟩
  have hid := hc.segments_group e he _ rfl
  rw [hgroup] at hid
  exact t.groups.nextId_notMem_ids hid

/-! ## Parts -/

variable {g : Entry Group}

/-- Publishing changes messages only. -/
theorem collects_published {other : ℕ} :
    Collects (t.published g now forwarding) segment other ↔ Collects t segment other := by
  rw [Collects, Collects, published_groups]

theorem StoredAsPart.published :
    StoredAsPart (t.published g now forwarding) segment ↔ StoredAsPart t segment := by
  simp only [StoredAsPart, published_segments, collects_published]

/-- A group that `find_group` returns and that has all its parts has no message. -/
theorem messageOfGroup_eq_none_of_full (hc : Constraints t) (ht : Consistent t)
    (hlookup : t.lookupGroup w segment now = some g) (hfull : t.hasAllParts g = true) :
    t.messageOfGroup g.id = none := by
  obtain ⟨hg, -, -, hopen⟩ := lookupGroup_eq_some hlookup
  cases hm : t.messageOfGroup g.id with
  | none => rfl
  | some m =>
    obtain ⟨hmem, hgroup⟩ := (messageOfGroup_eq_some hc).mp hm
    have hcomplete := ht.marked m hmem g hg hgroup id
    simp only [Tables.isOpen, hm, hcomplete, hfull] at hopen
    cases hopen

/-- Where a part goes whose slot is taken: nowhere, unless its group is published with a text that
happens to contain it. -/
theorem stored_of_taken (hc : Constraints t) (ht : Consistent t) (hmany : 1 < segment.total)
    (hlookup : t.lookupGroup w segment now = some g)
    (htaken : t.segmentAt g.id segment.partNumber ≠ none)
    (h : PartStored w segment sourceId now forwarding t u) :
    Stored u segment ↔ Stored t segment ∨
      (segment.total ≤ t.partCount g.id ∧ segment.content <:+: t.groupContent g.id) := by
  have htouch : ∀ {groupId : ℕ} {v : Tables}, GroupFor w segment now t groupId v →
      v.withPart segment groupId sourceId now = t.touchGroup g.id now ∧ groupId = g.id := by
    intro groupId v hgroup
    cases hgroup with
    | found x hx =>
      obtain rfl : x = g := Option.some.inj (hx.symm.trans hlookup)
      exact ⟨withPart_of_taken htaken, rfl⟩
    | created hx => rw [hlookup] at hx; cases hx
  cases h with
  | waiting hgroup hcount =>
    obtain ⟨hdata, rfl⟩ := htouch hgroup
    rw [hdata] at hcount ⊢
    have hcount' : ¬ segment.total ≤ t.partCount g.id := hcount
    simp only [stored_touchGroup, hcount', false_and, or_false]
  | published hgroup hvalid hcount x hx hid =>
    obtain ⟨hdata, rfl⟩ := htouch hgroup
    rw [hdata] at hcount hvalid hx ⊢
    obtain ⟨hg, hkey, -, -⟩ := lookupGroup_eq_some hlookup
    have hcount' : segment.total ≤ t.partCount g.id := hcount
    have hfull : t.hasAllParts g = true := by
      have htotal : g.row.totalParts = segment.total := by
        rw [(total_eq_totalParts hmany).1]
        exact congrArg (fun k => k.2.2.2) hkey
      rw [Tables.hasAllParts, htotal]
      exact decide_eq_true hcount'
    have hnone := messageOfGroup_eq_none.mp (messageOfGroup_eq_none_of_full hc ht hlookup hfull)
    have hmessage : StoredInMessage ((t.touchGroup g.id now).published x now forwarding) segment ↔
        StoredInMessage (t.touchGroup g.id now) segment ∨
          segment.content <:+: t.groupContent g.id := by
      have hcollects : Collects (t.touchGroup g.id now) segment x.id :=
        collects_touchGroup.mpr ⟨g, hg, hid.symm, hkey⟩
      rw [← hid] at hnone hvalid hcollects ⊢
      simp only [StoredInMessage, Carries, collects_published]
      constructor
      · rintro ⟨m, hm, hreceived, hcontent, horigin⟩
        by_cases hmg : m.row.groupId = some x.id
        · rw [(published_shows hvalid hm hmg).1] at hcontent
          exact .inr hcontent
        · exact .inl ⟨m, (mem_published_of_ne hvalid hmg).mp hm, hreceived, hcontent, horigin⟩
      · rintro (⟨m, hm, hrest⟩ | hcontent)
        · exact ⟨m, (mem_published_of_ne hvalid (hnone m hm)).mpr hm, hrest⟩
        · -- the group had no message, so the one it has now is new
          obtain ⟨m, hm, hmg⟩ := @exists_published _ x now forwarding hvalid
          rcases published_origin hm with ⟨y, hy, -, hyg, -⟩ | ⟨-, -, hreceived⟩
          · exact absurd (hyg.trans hmg) (hnone y hy)
          · refine ⟨m, hm, hreceived, ?_, .inl ⟨x.id, hmg, hcollects⟩⟩
            rw [(published_shows hvalid hm hmg).1]
            exact hcontent
    have hold := @stored_touchGroup segment g.id now t
    simp only [Stored] at hold
    simp only [Stored, StoredAsPart.published, hmessage, hcount', true_and, ← or_assoc, hold]

/-- Exactly when a part is stored. -/
theorem stored_part_iff (hc : Constraints t) (ht : Consistent t) (hmany : 1 < segment.total)
    (h : PartStored w segment sourceId now forwarding t u) :
    Stored u segment ↔
      (∀ g, t.lookupGroup w segment now = some g →
        t.segmentAt g.id segment.partNumber = none) ∨
      Stored t segment ∨
      ∃ g, t.lookupGroup w segment now = some g ∧ segment.total ≤ t.partCount g.id ∧
        segment.content <:+: t.groupContent g.id := by
  -- the place is free, and the part goes there, or it is taken
  by_cases hfree : ∀ g, t.lookupGroup w segment now = some g →
      t.segmentAt g.id segment.partNumber = none
  · refine iff_of_true (.inl ?_) (.inl hfree)
    have hpart : ∀ {groupId : ℕ} {v : Tables}, GroupFor w segment now t groupId v →
        StoredAsPart (v.withPart segment groupId sourceId now) segment := by
      intro groupId v hgroup
      refine storedAsPart_of_free hgroup ?_ hgroup.exists_group
      cases hgroup with
      | found x hlookup => exact hfree x hlookup
      | created hlookup => exact segmentAt_insertGroup hc segment.partNumber
    cases h with
    | waiting hgroup hcount => exact hpart hgroup
    | published hgroup hvalid hcount x hx hid => exact StoredAsPart.published.mpr (hpart hgroup)
  · simp only [not_forall] at hfree
    obtain ⟨g, hlookup, htaken⟩ := hfree
    rw [stored_of_taken hc ht hmany hlookup htaken h]
    constructor
    · rintro (hstored | hfull)
      · exact .inr (.inl hstored)
      · exact .inr (.inr ⟨g, hlookup, hfull⟩)
    · rintro (hfree | hstored | ⟨x, hx, hfull⟩)
      · exact absurd (hfree g hlookup) htaken
      · exact .inl hstored
      · obtain rfl : x = g := Option.some.inj (hx.symm.trans hlookup)
        exact .inr hfull

/-! ## Imports -/

/-- **An import keeps the segment exactly if there is a place for it.** -/
theorem Imported.kept_iff {r : ImportResult} (h : Imported w segment now forwarding t r u)
    (hc : Constraints t) (ht : Consistent t) :
    ImportKept t u segment ↔ HasPlace w t segment now := by
  unfold ImportKept HasPlace
  cases h with
  | duplicate source hsource hdup =>
    exact iff_of_true (.inl (by simp [hsource])) (.inl (by simp [hsource]))
  | single hnew hone hdup =>
    refine iff_of_true (.inr (.inr ?_)) (.inr (.inl (not_lt.mp hone)))
    exact ⟨_, Table.mem_insert.mpr (.inr rfl), rfl, List.infix_rfl,
      .inr ⟨rfl, not_lt.mp hone, rfl, rfl⟩⟩
  | part hnew hmany hdup hlow hhigh hvalid hstored =>
    have hsplit := stored_part_iff hvalid (ht.registered hc segment now) hmany hstored
    -- the row of the new source and the modem do not matter for any of the lookups
    have hstored' : Stored (t.registered segment now) segment ↔ Stored t segment :=
      Stored.congr rfl rfl rfl
    simp only [hnew, Option.isSome_none, Bool.false_eq_true, false_or, not_le.mpr hmany]
    exact Iff.trans (Stored.congr rfl rfl rfl) hsplit

/-- **No loss**: in every reachable state, a successful import keeps the content exactly when the
segment has a place.  It always reports that a new source may be deleted. -/
theorem import_kept_iff {s : State} (hs : s.Reachable) {r : ImportResult} {db : Database}
    (h : importSegment s.windows segment now forwarding s.db = some (r, db)) :
    ImportKept s.db.data db.data segment ↔ HasPlace s.windows s.db.data segment now :=
  (importSegment_eq_some h).kept_iff s.db.valid hs.consistent

/-! ## A lost part -/

/-- Part 1 of 2 of a message with reference 7. -/
def partOfFirst : SmsSegment where
  modemId := ⟨[0x61], validId_a⟩
  storage := [0x53, 0x4d]
  sourceIndex := 0
  pdu := [0x30]
  sender := [0x31, 0x32]
  timestamp := 100
  content := [0x41]
  reference := 7
  totalParts := 2
  partNumber := 1

/-- Part 1 of 2 of another message of the same sender that uses the reference again. -/
def partOfSecond : SmsSegment :=
  { partOfFirst with sourceIndex := 1, pdu := [0x31], timestamp := 160, content := [0x42] }

/-- The state with the part of the first message. -/
def afterFirst : State := run State.step State.initial [.importSegment partOfFirst 1000 true]

def restOfFirst : SmsSegment :=
  { partOfFirst with sourceIndex := 2, pdu := [0x32], content := [0x43], partNumber := 2 }

/-- The open group of the first message has a place for the other part. -/
theorem import_kept_rest :
    ∃ r db, importSegment afterFirst.windows restOfFirst 1010 true afterFirst.db = some (r, db) ∧
      ImportKept afterFirst.db.data db.data restOfFirst := by
  have hsome : (importSegment afterFirst.windows restOfFirst 1010 true
      afterFirst.db).isSome = true := by decide +kernel
  have hplace : (afterFirst.db.data.lookupGroup afterFirst.windows restOfFirst 1010).any
      (fun g => (afterFirst.db.data.segmentAt g.id 2).isNone) = true := by decide +kernel
  obtain ⟨⟨r, db⟩, h⟩ := Option.isSome_iff_exists.mp hsome
  have hreachable : afterFirst.Reachable := ⟨_, rfl⟩
  refine ⟨r, db, h, (import_kept_iff hreachable h).mpr (.inr (.inr (.inl fun g hg => ?_)))⟩
  rw [hg, Option.any_some] at hplace
  exact Option.isNone_iff_eq_none.mp hplace

/-- The second message loses its part, although the modem may delete it. -/
theorem reusedReference_not_kept :
    ∃ s r db, State.Reachable s ∧
      importSegment s.windows partOfSecond 1060 true s.db = some (r, db) ∧
      r.safeToDelete = true ∧ ¬ ImportKept s.db.data db.data partOfSecond := by
  have hsome : (importSegment afterFirst.windows partOfSecond 1060 true
      afterFirst.db).isSome = true := by decide +kernel
  have hlost : ((importSegment afterFirst.windows partOfSecond 1060 true afterFirst.db).all fun x =>
      x.1.safeToDelete && !decide (ImportKept afterFirst.db.data x.2.data partOfSecond)) = true := by
    decide +kernel
  obtain ⟨⟨r, db⟩, h⟩ := Option.isSome_iff_exists.mp hsome
  rw [h, Option.all_some, Bool.and_eq_true, Bool.not_eq_true', decide_eq_false_iff_not] at hlost
  exact ⟨afterFirst, r, db, ⟨_, rfl⟩, h, hlost.1, hlost.2⟩

end QModem.Smsd
