import QModem.Smsd.Validity

/-!
# Putting Messages Together Again

The parts of a long message arrive in any order and any number of times, and the message may be
published while parts are missing.

## Main definitions

- `MultipartMessage`: a message in several parts, as a modem delivers it
- `Assembling`: what the tables hold of such a message while it arrives

## Main results

- `Assembling.step`: every operation of the traffic keeps the tables in order
- `reassembly`: at the end there is one message with the text of all parts, and never more than one
-/

namespace QModem.Smsd

open Lib Transaction List Table Tables

/-- A message in several parts, as a modem delivers it. -/
structure MultipartMessage where
  modemId : ModemId
  sender : Text
  reference : ℤ
  parts : List SmsSegment
  many : 1 < parts.length
  key : ∀ p ∈ parts, p.groupKey = (modemId, sender, reference, (parts.length : ℤ))
  numbered : parts.map (·.partNumber) = (List.range parts.length).map fun i : ℕ => (i : ℤ) + 1
  index : ∀ p ∈ parts, 0 ≤ p.sourceIndex
  sources : (parts.map (·.fingerprint)).Nodup

/-- The messages of all groups with a key. -/
def Tables.messagesFor (t : Tables) (key : ModemId × Text × ℤ × ℤ) : List (Entry Message) :=
  t.messages.select fun m => t.groups.rows.any fun g =>
    m.row.groupId = some g.id && g.row.groupKey = key

namespace MultipartMessage

variable (m : MultipartMessage)

def groupKey : ModemId × Text × ℤ × ℤ := (m.modemId, m.sender, m.reference, (m.parts.length : ℤ))

/-- The text of all parts, in part order. -/
def content : Text := m.parts.flatMap (·.content)

/-- Nothing of the message, and no group with its key, is in the tables. -/
def Fresh (t : Tables) : Prop :=
  (∀ g ∈ t.groups, g.row.groupKey ≠ m.groupKey) ∧ ∀ p ∈ m.parts, (t.sourceOf p).isSome = false

/-- What may happen while the message arrives: its parts are imported within the window, other
segments with another key are imported, and groups are published. -/
inductive Traffic (w : Windows) (start : ℤ) : Op → Prop where
  | part {p : SmsSegment} (hp : p ∈ m.parts) {now : ℤ} (hstart : start ≤ now)
      (hwindow : now ≤ start + w.lateFragmentWindow) (forwarding : Bool) :
      Traffic w start (.importSegment p now forwarding)
  | other {segment : SmsSegment} (hkey : segment.groupKey ≠ m.groupKey)
      (hsource : ∀ p ∈ m.parts, p.fingerprint ≠ segment.fingerprint) (now : ℤ) (forwarding : Bool) :
      Traffic w start (.importSegment segment now forwarding)
  | publish (modemId : ModemId) (now : ℤ) (forwarding : Bool) (scan : ScanOrder) :
      Traffic w start (.publishExpired modemId now forwarding scan)

/-- The parts whose source has been imported. -/
def received (t : Tables) : List SmsSegment := m.parts.filter fun p => (t.sourceOf p).isSome

/-! ## Part numbers -/

variable {m}

theorem nodup_partNumbers : (m.parts.map (·.partNumber)).Nodup := by
  rw [m.numbered]
  exact nodup_range.map fun i j hij => by simpa using hij

variable {p : SmsSegment}

theorem eq_of_partNumber_eq {q : SmsSegment} (hp : p ∈ m.parts) (hq : q ∈ m.parts)
    (h : p.partNumber = q.partNumber) : p = q :=
  inj_on_of_nodup_map nodup_partNumbers hp hq h

theorem eq_of_fingerprint_eq {q : SmsSegment} (hp : p ∈ m.parts) (hq : q ∈ m.parts)
    (h : p.fingerprint = q.fingerprint) : p = q :=
  inj_on_of_nodup_map m.sources hp hq h

theorem pairwise_partNumbers : m.parts.Pairwise fun p q => p.partNumber < q.partNumber := by
  have h : (m.parts.map (·.partNumber)).Pairwise (· < ·) := by
    rw [m.numbered, pairwise_map]
    exact pairwise_lt_range.imp fun hlt => by omega
  exact pairwise_map.mp h

theorem partNumber_range (hp : p ∈ m.parts) : 1 ≤ p.partNumber ∧ p.partNumber ≤ m.parts.length := by
  have hmem : p.partNumber ∈ m.parts.map (·.partNumber) := mem_map_of_mem hp
  rw [m.numbered] at hmem
  obtain ⟨i, hi, heq⟩ := mem_map.mp hmem
  have hlt := mem_range.mp hi
  omega

theorem total_eq (hp : p ∈ m.parts) : p.total = m.parts.length := by
  have htotal : p.totalParts = m.parts.length := congrArg (fun k => k.2.2.2) (m.key p hp)
  have hmany := m.many
  rw [SmsSegment.total, htotal, if_pos (by omega)]

end MultipartMessage

open MultipartMessage

/-! ## Known sources -/

variable {m : MultipartMessage} {w : Windows} {start : ℤ} {t u v : Tables} {s : State}

variable {segment : SmsSegment} {ids : List ℕ}

theorem sourceOf_isSome :
    (t.sourceOf segment).isSome = true ↔
      ∃ e ∈ t.sources, e.row.fingerprint = segment.fingerprint := by
  simp [sourceOf, Table.isSome_find?]

/-- Whether a source is known depends on its fingerprint only. -/
theorem sourceOf_updateSources {p : Entry Source → Bool} {f : Source → Source}
    (hf : ∀ x, (f x).fingerprint = x.fingerprint) :
    (Tables.sourceOf { t with sources := t.sources.updateWhere p f } segment).isSome = true ↔
      (t.sourceOf segment).isSome = true := by
  rw [sourceOf_isSome, sourceOf_isSome]
  constructor
  · rintro ⟨e, he, hprint⟩
    rcases mem_updateWhere.mp he with ⟨he, -⟩ | ⟨x, hx, -, rfl⟩
    · exact ⟨e, he, hprint⟩
    · exact ⟨x, hx, (hf x.row).symm.trans hprint⟩
  · rintro ⟨e, he, hprint⟩
    -- updated or not
    cases hp : p e with
    | false => exact ⟨e, mem_updateWhere.mpr (.inl ⟨he, hp⟩), hprint⟩
    | true =>
      exact ⟨_, mem_updateWhere.mpr (.inr ⟨e, he, hp, rfl⟩), (hf e.row).trans hprint⟩

variable {now : ℤ}

theorem sourceOf_touchSource {sourceId : ℕ} :
    ((t.touchSource sourceId now).sourceOf segment).isSome = true ↔
      (t.sourceOf segment).isSome = true := by
  refine sourceOf_updateSources ?_
  exact fun _ => rfl

theorem sourceOf_commitSource {sourceId : ℕ} :
    ((t.commitSource sourceId).sourceOf segment).isSome = true ↔
      (t.sourceOf segment).isSome = true := by
  refine sourceOf_updateSources ?_
  exact fun _ => rfl

/-- One source more is known, that of the segment. -/
theorem sourceOf_registered {q : SmsSegment} (now : ℤ) :
    ((t.registered segment now).sourceOf q).isSome = true ↔
      (t.sourceOf q).isSome = true ∨ q.fingerprint = segment.fingerprint := by
  rw [sourceOf_isSome, sourceOf_isSome]
  constructor
  · rintro ⟨e, he, hprint⟩
    rcases mem_insert.mp he with he | rfl
    · exact .inl ⟨e, he, hprint⟩
    · exact .inr hprint.symm
  · rintro (⟨e, he, hprint⟩ | hprint)
    · exact ⟨e, mem_insert.mpr (.inl he), hprint⟩
    · exact ⟨_, mem_insert.mpr (.inr rfl), hprint.symm⟩

variable {forwarding : Bool}

/-- An import makes its source known and forgets none. -/
theorem Imported.sourceOf_iff {r : ImportResult} (h : Imported w segment now forwarding t r u)
    (q : SmsSegment) :
    (u.sourceOf q).isSome = true ↔
      (t.sourceOf q).isSome = true ∨ q.fingerprint = segment.fingerprint := by
  cases h with
  | duplicate source hsource hdup =>
    refine sourceOf_touchSource.trans (or_iff_left_of_imp fun hsame => ?_).symm
    obtain ⟨hmem, hprint⟩ := mem_of_find? hsource
    exact sourceOf_isSome.mpr ⟨source, hmem, (of_decide_eq_true hprint).trans hsame.symm⟩
  | single hnew hone hdup => exact sourceOf_commitSource.trans (sourceOf_registered now)
  | part hnew hmany hdup hlow hhigh hvalid hstored =>
    refine sourceOf_commitSource.trans (Iff.trans ?_ (sourceOf_registered now))
    rw [sourceOf, hstored.sources]
    rfl

/-- An import of something else neither knows nor forgets a part. -/
theorem Imported.sourceOf_other {r : ImportResult} (h : Imported w segment now forwarding t r u)
    (hother : ∀ p ∈ m.parts, p.fingerprint ≠ segment.fingerprint) :
    ∀ p ∈ m.parts, (u.sourceOf p).isSome = (t.sourceOf p).isSome := by
  intro p hp
  rw [Bool.eq_iff_iff, h.sourceOf_iff, or_iff_left (hother p hp)]

/-! ## The message while it arrives -/

/-- Number and text of a part. -/
def Segment.slot (e : Segment) : ℤ × Text := (e.partNumber, e.content)

def SmsSegment.slot (p : SmsSegment) : ℤ × Text := (p.partNumber, p.content)

def Tables.segmentsOf (t : Tables) (groupId : ℕ) : List (Entry Segment) :=
  t.segments.select (·.row.groupId = groupId)

/-- The only group with the key of the message holds exactly the given parts. -/
structure InGroup (m : MultipartMessage) (start : ℤ) (received : List SmsSegment) (t : Tables)
    (g : Entry Group) : Prop where
  mem : g ∈ t.groups
  key : g.row.groupKey = m.groupKey
  only : ∀ x ∈ t.groups, x.row.groupKey = m.groupKey → x = g
  recent : start ≤ g.row.lastSeen
  slots : ((t.segmentsOf g.id).map (·.row.slot)).Perm (received.map (·.slot))

/-- A group with all its parts has a message with their text. -/
def Shown (t : Tables) (g : Entry Group) : Prop :=
  t.hasAllParts g = true →
    ∃ x ∈ t.messages, x.row.groupId = some g.id ∧ x.row.content = t.groupContent g.id

/-- What the tables hold of a message while it arrives: nothing, or one group with the parts
received so far. -/
def Assembling (m : MultipartMessage) (start : ℤ) (t : Tables) : Prop :=
  m.Fresh t ∨ ∃ g, InGroup m start (m.received t) t g ∧ Shown t g

/-! ### Frame -/

/-- Nothing that concerns the message has changed, sources apart. -/
structure Aside (m : MultipartMessage) (t u : Tables) : Prop where
  groups : SameOn (·.groupKey = m.groupKey) t.groups u.groups
  segments : ∀ g ∈ t.groups, g.row.groupKey = m.groupKey → u.segmentsOf g.id = t.segmentsOf g.id
  messages : ∀ g ∈ t.groups, g.row.groupKey = m.groupKey →
    SameOn (·.groupId = some g.id) t.messages u.messages

theorem Aside.congr (hgroups : u.groups = t.groups) (hsegments : u.segments = t.segments)
    (hmessages : u.messages = t.messages) : Aside m t u where
  groups := by rw [hgroups]; exact .refl _
  segments g _ _ := by rw [segmentsOf, hsegments]; rfl
  messages g _ _ := by rw [hmessages]; exact .refl _

theorem Aside.trans (h : Aside m t u) (h' : Aside m u v) : Aside m t v where
  groups := h.groups.trans h'.groups
  segments g hg hkey :=
    (h'.segments g ((h.groups g hkey).mpr hg) hkey).trans (h.segments g hg hkey)
  messages g hg hkey := (h.messages g hg hkey).trans (h'.messages g ((h.groups g hkey).mpr hg) hkey)

variable {received : List SmsSegment} {g : Entry Group}

theorem InGroup.aside (h : InGroup m start received t g) (hu : Aside m t u) :
    InGroup m start received u g where
  mem := (hu.groups g h.key).mpr h.mem
  key := h.key
  only x hx hkey := h.only x ((hu.groups x hkey).mp hx) hkey
  recent := h.recent
  slots := by rw [hu.segments g h.mem h.key]; exact h.slots

theorem groupContent_congr {groupId : ℕ} (h : u.segmentsOf groupId = t.segmentsOf groupId) :
    u.groupContent groupId = t.groupContent groupId := by
  have hsegments : u.groupSegments groupId = t.groupSegments groupId :=
    congrArg (fun l => l.insertionSort fun a b => a.row.partNumber ≤ b.row.partNumber) h
  rw [groupContent, hsegments]
  rfl

theorem partCount_congr {groupId : ℕ} (h : u.segmentsOf groupId = t.segmentsOf groupId) :
    u.partCount groupId = t.partCount groupId := congrArg length h

theorem Shown.aside (h : Shown t g) (hg : InGroup m start received t g)
    (hu : Aside m t u) : Shown u g := by
  have hsegments := hu.segments g hg.mem hg.key
  intro hall
  rw [hasAllParts, partCount_congr hsegments] at hall
  obtain ⟨x, hx, hgroup, hcontent⟩ := h hall
  refine ⟨x, (hu.messages g hg.mem hg.key x hgroup).mpr hx, hgroup, ?_⟩
  rw [hcontent, groupContent_congr hsegments]

theorem Assembling.aside (h : Assembling m start t) (hu : Aside m t u)
    (hsources : ∀ p ∈ m.parts, (u.sourceOf p).isSome = (t.sourceOf p).isSome) :
    Assembling m start u := by
  have hreceived : m.received u = m.received t := filter_congr hsources
  rcases h with ⟨hgroups, hfresh⟩ | ⟨g, hg, hshown⟩
  · refine .inl ⟨fun g hg hkey => ?_, fun p hp => ?_⟩
    · exact hgroups g ((hu.groups g hkey).mp hg) hkey
    · rw [hsources p hp, hfresh p hp]
  · exact .inr ⟨g, hreceived ▸ hg.aside hu, hshown.aside hg hu⟩

/-! ### Publishing -/

/-- Publishing a group with another key. -/
theorem aside_published (hc : Constraints t) {x : Entry Group} (hx : x ∈ t.groups)
    (hkey : x.row.groupKey ≠ m.groupKey) (now : ℤ) (forwarding : Bool) :
    Aside m t (t.published x now forwarding) where
  groups := by rw [published_groups]; exact .refl _
  segments g _ _ := by rw [segmentsOf, published_segments]; rfl
  messages g hg hgkey e he := by
    refine mem_published_of_ne hc ?_
    rw [he]
    intro hid
    rw [eq_of_id_eq hx hg (Option.some.inj hid).symm] at hkey
    exact hkey hgkey

theorem InGroup.published (h : InGroup m start received t g) (x : Entry Group) (now : ℤ)
    (forwarding : Bool) : InGroup m start received (t.published x now forwarding) g where
  mem := by rw [published_groups]; exact h.mem
  key := h.key
  only := by rw [published_groups]; exact h.only
  recent := h.recent
  slots := by rw [segmentsOf, published_segments]; exact h.slots

/-- Afterwards the message shows the parts. -/
theorem shown_published (hc : Constraints t) (g : Entry Group) (now : ℤ) (forwarding : Bool) :
    Shown (t.published g now forwarding) g := by
  intro _
  obtain ⟨x, hx, hgroup⟩ := @exists_published t g now forwarding hc
  refine ⟨x, hx, hgroup, ?_⟩
  rw [(published_shows hc hx hgroup).1]
  refine (groupContent_congr ?_).symm
  rw [segmentsOf, published_segments]
  rfl

/-- Publishing does not take anything away from a message that arrives. -/
theorem Assembling.published (h : Assembling m start t) (hc : Constraints t) {x : Entry Group}
    (hx : x ∈ t.groups) (now : ℤ) (forwarding : Bool) :
    Assembling m start (t.published x now forwarding) := by
  have hsources : ∀ p ∈ m.parts, ((t.published x now forwarding).sourceOf p).isSome =
      (t.sourceOf p).isSome := by
    intro p _
    rw [sourceOf, published_sources]
    rfl
  -- the group of the message itself, or one that does not concern it
  by_cases hkey : x.row.groupKey = m.groupKey
  · rcases h with ⟨hgroups, -⟩ | ⟨g, hg, -⟩
    · exact absurd hkey (hgroups x hx)
    · obtain rfl := hg.only x hx hkey
      have hreceived : m.received (t.published x now forwarding) = m.received t :=
        filter_congr hsources
      exact .inr ⟨x, hreceived ▸ hg.published x now forwarding,
        shown_published hc x now forwarding⟩
  · exact h.aside (aside_published hc hx hkey now forwarding) hsources

theorem PublishedAll.assembling (h : PublishedAll now forwarding ids t u) (hc : Constraints t)
    (ht : Assembling m start t) : Assembling m start u := by
  induction h with
  | nil => exact ht
  | cons g hg hvalid _ ih => exact ih hvalid (ht.published hc hg now forwarding)

theorem PublishedAll.sources (h : PublishedAll now forwarding ids t u) : u.sources = t.sources := by
  induction h with
  | nil => rfl
  | cons g hg hvalid _ ih => rw [ih, published_sources]

theorem PublishedAll.groups (h : PublishedAll now forwarding ids t u) : u.groups = t.groups := by
  induction h with
  | nil => rfl
  | cons x hx hvalid _ ih => rw [ih, published_groups]

/-! ### A part of another message -/

section Other

variable {sourceId groupId : ℕ}

theorem GroupFor.aside (h : GroupFor w segment now t groupId u)
    (hkey : segment.groupKey ≠ m.groupKey) : Aside m t u := by
  cases h with
  | found x hlookup => exact .congr rfl rfl rfl
  | created hlookup hvalid =>
    exact ⟨.insert hkey, fun _ _ _ => rfl, fun _ _ _ => .refl _⟩

/-- A part for another group does not concern the message. -/
theorem aside_withPart (hgroup : ∀ g ∈ t.groups, g.id = groupId → g.row.groupKey ≠ m.groupKey) :
    Aside m t (t.withPart segment groupId sourceId now) where
  groups := by
    dsimp only [withPart, touchGroup, insertSegment]
    refine .updateWhere ?_ ?_ <;> exact fun g hg hid => hgroup g hg (of_decide_eq_true hid)
  segments g hg hkey := by
    simp only [segmentsOf, withPart, touchGroup, insertSegment]
    split
    · rfl
    · -- the new row belongs to the other group
      have hother : ¬ decide ((segment.asPart groupId sourceId).groupId = g.id) = true :=
        fun hid => hgroup g hg (of_decide_eq_true hid).symm hkey
      rw [select_insert, if_neg hother, append_nil]
  messages _ _ _ := .refl _

/-- Nor does a part with another key. -/
theorem PartStored.aside (h : PartStored w segment sourceId now forwarding t u)
    (hkey : segment.groupKey ≠ m.groupKey) : Aside m t u := by
  have hother : ∀ {groupId : ℕ} {v : Tables}, GroupFor w segment now t groupId v →
      ∀ g ∈ v.groups, g.id = groupId → g.row.groupKey ≠ m.groupKey := by
    intro groupId v hgroup g hg hid
    rwa [hgroup.key hg hid]
  cases h with
  | waiting hgroup hcount => exact (hgroup.aside hkey).trans (aside_withPart (hother hgroup))
  | published hgroup hvalid hcount g hg hid =>
    refine (hgroup.aside hkey).trans ((aside_withPart (hother hgroup)).trans
      (aside_published hvalid hg ?_ now forwarding))
    -- touching the group has not changed its key
    rcases mem_updateWhere.mp hg with ⟨hmem, -⟩ | ⟨x, hx, hxid, rfl⟩
    · exact hother hgroup g hmem hid
    · exact hother hgroup x hx (of_decide_eq_true hxid)

theorem Imported.aside {r : ImportResult} (h : Imported w segment now forwarding t r u)
    (hkey : segment.groupKey ≠ m.groupKey) : Aside m t u := by
  cases h with
  | duplicate source hsource hdup => exact .congr rfl rfl rfl
  | single hnew hone hdup =>
    exact ⟨.refl _, fun _ _ _ => rfl, fun _ _ _ => .insert (by rintro ⟨⟩)⟩
  | part hnew hmany hdup hlow hhigh hvalid hstored =>
    have hregistered : Aside m t (t.registered segment now) := .congr rfl rfl rfl
    exact hregistered.trans ((hstored.aside hkey).trans (.congr rfl rfl rfl))

end Other

/-! ### A part of the message -/

section Part

variable {p : SmsSegment} {sourceId groupId : ℕ}

theorem InGroup.partCount (h : InGroup m start received t g) : t.partCount g.id = received.length := by
  have hlength := h.slots.length_eq
  rwa [length_map, length_map] at hlength

theorem InGroup.totalParts (h : InGroup m start received t g) :
    g.row.totalParts = m.parts.length :=
  congrArg (fun k => k.2.2.2) h.key

/-- The group is found as long as a part is missing. -/
theorem InGroup.lookupGroup (h : InGroup m start received t g) (hc : Constraints t)
    (ht : Consistent t) (hp : p ∈ m.parts) (hwindow : now ≤ start + w.lateFragmentWindow)
    (hmissing : received.length < m.parts.length) : t.lookupGroup w p now = some g := by
  have hopen : t.isOpen g.id = true := by
    unfold isOpen
    cases hx : t.messageOfGroup g.id with
    | none => rfl
    | some x =>
      -- a message that is there already is marked incomplete
      obtain ⟨hmem, hgroup⟩ := (messageOfGroup_eq_some hc).mp hx
      have hcomplete := ht.marked x hmem g h.mem hgroup id
      rw [hasAllParts, h.partCount, h.totalParts, decide_eq_false (by omega)] at hcomplete
      simp [hcomplete]
  have hrecent := h.recent
  have hselected : g ∈ t.groups.select fun g => g.row.groupKey = p.groupKey &&
      now - w.lateFragmentWindow ≤ g.row.lastSeen && t.isOpen g.id := by
    refine mem_select.mpr ⟨h.mem, ?_⟩
    simp only [h.key, m.key p hp, hopen, Bool.and_true, Bool.and_eq_true, decide_eq_true_eq]
    exact ⟨rfl, by omega⟩
  cases hlookup : t.lookupGroup w p now with
  | none =>
    rw [Tables.lookupGroup, head?_eq_none_iff] at hlookup
    rw [← mem_insertionSort newestFirst, hlookup] at hselected
    cases hselected
  | some x =>
    obtain ⟨hx, hkey, -, -⟩ := lookupGroup_eq_some hlookup
    rw [h.only x hx (hkey.trans (m.key p hp))]

/-- Before the first part has come there is nothing to find. -/
theorem lookupGroup_eq_none (hfresh : ∀ g ∈ t.groups, g.row.groupKey ≠ m.groupKey)
    (hp : p ∈ m.parts) : t.lookupGroup w p now = none := by
  rw [Option.eq_none_iff_forall_ne_some]
  intro x hlookup
  obtain ⟨hx, hkey, -, -⟩ := lookupGroup_eq_some hlookup
  exact hfresh x hx (hkey.trans (m.key p hp))

/-- A new group holds no parts. -/
theorem segmentsOf_insertGroup (hc : Constraints t) :
    (t.insertGroup p now).segmentsOf t.groups.nextId = [] := by
  refine filter_eq_nil_iff.mpr fun e he hgroup => ?_
  have hid := hc.segments_group e he _ rfl
  rw [of_decide_eq_true hgroup] at hid
  exact t.groups.nextId_notMem_ids hid

/-- The first part finds an empty group, made for it. -/
theorem inGroup_insertGroup (hc : Constraints t)
    (hfresh : ∀ g ∈ t.groups, g.row.groupKey ≠ m.groupKey) (hp : p ∈ m.parts) (hstart : start ≤ now)
    (hg : g ∈ (t.insertGroup p now).groups) (hid : g.id = t.groups.nextId) :
    InGroup m start [] (t.insertGroup p now) g := by
  obtain rfl : g = ⟨t.groups.nextId, _⟩ :=
    eq_of_id_eq hg (mem_insert.mpr (.inr rfl)) hid
  refine ⟨hg, m.key p hp, fun x hx hkey => ?_, hstart, ?_⟩
  · rcases mem_insert.mp hx with hx | rfl
    · exact absurd hkey (hfresh x hx)
    · rfl
  · rw [segmentsOf_insertGroup hc]
    exact .refl _

/-- A part comes that is still missing. -/
structure Awaited (m : MultipartMessage) (w : Windows) (start : ℤ) (received : List SmsSegment)
    (p : SmsSegment) (now : ℤ) (t : Tables) : Prop where
  part : p ∈ m.parts
  recent : start ≤ now
  window : now ≤ start + w.lateFragmentWindow
  missing : received.length < m.parts.length
  sub : ∀ q ∈ received, q ∈ m.parts
  new : p ∉ received
  before : ((∀ g ∈ t.groups, g.row.groupKey ≠ m.groupKey) ∧ received = []) ∨
    ∃ g, InGroup m start received t g

/-- `find_group` returns the group of the message. -/
theorem GroupFor.inGroup (h : GroupFor w p now t groupId u) (hc : Constraints t)
    (ht : Consistent t) (hp : Awaited m w start received p now t) :
    ∃ g, g.id = groupId ∧ InGroup m start received u g := by
  -- before the first part there is no group, later there is one that fits
  rcases hp.before with ⟨hfresh, rfl⟩ | ⟨g, hg⟩
  · have hnone : t.lookupGroup w p now = none := lookupGroup_eq_none hfresh hp.part
    cases h with
    | found x hlookup => cases hnone.symm.trans hlookup
    | created hlookup hvalid =>
      exact ⟨_, rfl, inGroup_insertGroup hc hfresh hp.part hp.recent
        (mem_insert.mpr (.inr rfl)) rfl⟩
  · have hsome := hg.lookupGroup hc ht hp.part hp.window hp.missing
    cases h with
    | found x hlookup =>
      obtain rfl : x = g := Option.some.inj (hlookup.symm.trans hsome)
      exact ⟨x, rfl, hg⟩
    | created hlookup hvalid => cases hlookup.symm.trans hsome

/-- The slot of a part that has not come yet is free. -/
theorem InGroup.segmentAt_eq_none (h : InGroup m start received t g)
    (hsub : ∀ q ∈ received, q ∈ m.parts) (hp : p ∈ m.parts) (hnew : p ∉ received) :
    t.segmentAt g.id p.partNumber = none := by
  rw [← Option.not_isSome_iff_eq_none, segmentAt_isSome]
  rintro ⟨e, he, hgroup, hnumber⟩
  have hslot : e.row.slot ∈ received.map (·.slot) := by
    refine h.slots.mem_iff.mp (mem_map_of_mem (mem_select.mpr ⟨he, ?_⟩))
    exact decide_eq_true hgroup
  obtain ⟨q, hq, hsame⟩ := mem_map.mp hslot
  have hnumbers : q.partNumber = p.partNumber := (congrArg Prod.fst hsame).trans hnumber
  rw [← eq_of_partNumber_eq (hsub q hq) hp hnumbers] at hnew
  exact hnew hq

/-- The group with one more part. -/
def touchedGroup (g : Entry Group) (now : ℤ) : Entry Group := ⟨g.id, { g.row with lastSeen := now }⟩

/-- The part takes its place, which was free. -/
theorem InGroup.withPart (h : InGroup m start received t g) (sourceId : ℕ) (hstart : start ≤ now)
    (hfree : t.segmentAt g.id p.partNumber = none) :
    InGroup m start (received ++ [p]) (t.withPart p g.id sourceId now) (touchedGroup g now) where
  mem := mem_updateWhere.mpr (.inr ⟨g, h.mem, decide_eq_true rfl, rfl⟩)
  key := h.key
  only x hx hkey := by
    rcases mem_updateWhere.mp hx with ⟨hx, hid⟩ | ⟨y, hy, hid, rfl⟩
    · rw [h.only x hx hkey] at hid
      exact absurd rfl (of_decide_eq_false hid)
    · rw [eq_of_id_eq hy h.mem (of_decide_eq_true hid)]
      rfl
  recent := hstart
  slots := by
    -- it stands behind the others, whatever its number is
    have hnew : (t.withPart p g.id sourceId now).segmentsOf (touchedGroup g now).id =
        t.segmentsOf g.id ++ [⟨t.segments.nextId, p.asPart g.id sourceId⟩] := by
      simp only [Tables.segmentsOf, Tables.withPart, Tables.touchGroup, Tables.insertSegment, hfree,
        Option.isSome_none, Bool.false_eq_true, if_false, select_insert]
      have hown : decide ((p.asPart g.id sourceId).groupId = (touchedGroup g now).id) = true :=
        decide_eq_true rfl
      rw [if_pos hown]
      rfl
    rw [hnew, map_append, map_append]
    exact h.slots.append_right _

/-- The part is put into the group of the message. -/
theorem GroupFor.withPart (h : GroupFor w p now t groupId u) (hc : Constraints t)
    (ht : Consistent t) (hp : Awaited m w start received p now t) (sourceId : ℕ) :
    ∃ g, g.id = groupId ∧ InGroup m start received u g ∧
      InGroup m start (received ++ [p]) (u.withPart p g.id sourceId now) (touchedGroup g now) := by
  obtain ⟨g, hid, hg⟩ := h.inGroup hc ht hp
  have hfree := hg.segmentAt_eq_none hp.sub hp.part hp.new
  exact ⟨g, hid, hg, hg.withPart sourceId hp.recent hfree⟩

/-- A part that was still missing gets into the group, and the message is shown with the last one.
-/
theorem PartStored.inGroup (h : PartStored w p sourceId now forwarding t u) (hc : Constraints t)
    (ht : Consistent t) (hp : Awaited m w start received p now t) :
    ∃ g, InGroup m start (received ++ [p]) u g ∧ Shown u g := by
  cases h with
  | waiting hgroup hcount =>
    obtain ⟨g, rfl, -, hstored⟩ := hgroup.withPart hc ht hp sourceId
    refine ⟨_, hstored, fun hall => absurd ?_ hcount⟩
    -- a group with all its parts would have been published
    rw [total_eq hp.part, ← hstored.totalParts]
    exact of_decide_eq_true hall
  | published hgroup hvalid hcount x hx hid =>
    obtain ⟨g, rfl, -, hstored⟩ := hgroup.withPart hc ht hp sourceId
    obtain rfl : x = touchedGroup g now := eq_of_id_eq hx hstored.mem hid
    exact ⟨_, hstored.published _ now forwarding, shown_published hvalid _ now forwarding⟩

/-- One more source is known. -/
theorem received_perm (hp : p ∈ m.parts) (hnew : (t.sourceOf p).isSome = false)
    (hsources : ∀ q, (u.sourceOf q).isSome = true ↔
      (t.sourceOf q).isSome = true ∨ q.fingerprint = p.fingerprint) :
    (m.received u).Perm (m.received t ++ [p]) := by
  have hnodup : m.parts.Nodup := Nodup.of_map _ m.sources
  have hnotMem : p ∉ m.received t := by simp [received, hnew]
  have hafter : (m.received u).Nodup := hnodup.filter _
  -- the order of arrival does not matter, since no part comes twice
  rw [perm_ext_iff_of_nodup hafter]
  · intro q
    simp only [received, mem_filter, hsources, mem_append, mem_singleton]
    constructor
    · rintro ⟨hq, hold | hsame⟩
      · exact .inl ⟨hq, hold⟩
      · exact .inr (eq_of_fingerprint_eq hq hp hsame)
    · rintro (⟨hq, hold⟩ | rfl)
      · exact ⟨hq, .inl hold⟩
      · exact ⟨hp, .inr rfl⟩
  · exact nodup_append_comm.mpr (nodup_cons.mpr ⟨hnotMem, hnodup.filter _⟩)

/-- A source that is missing makes the group incomplete. -/
theorem received_length_lt (hp : p ∈ m.parts) (hnew : (t.sourceOf p).isSome = false) :
    (m.received t).length < m.parts.length :=
  length_filter_lt_length_iff_exists.mpr ⟨p, hp, by simp [hnew]⟩

theorem InGroup.perm {received' : List SmsSegment} (h : InGroup m start received t g)
    (hperm : received'.Perm received) : InGroup m start received' t g :=
  { h with slots := h.slots.trans (hperm.map _).symm }

/-- The source of a part is stored before its group is looked up. -/
theorem Assembling.awaited (h : Assembling m start t) (hp : p ∈ m.parts) (hstart : start ≤ now)
    (hwindow : now ≤ start + w.lateFragmentWindow) (hnew : (t.sourceOf p).isSome = false) :
    Awaited m w start (m.received t) p now (t.registered p now) where
  part := hp
  recent := hstart
  window := hwindow
  missing := received_length_lt hp hnew
  sub _ hq := mem_of_mem_filter hq
  new hmem := by simpa [hnew] using (mem_filter.mp hmem).2
  before := by
    rcases h with ⟨hgroups, hfresh⟩ | ⟨g, hg, -⟩
    · refine .inl ⟨hgroups, filter_eq_nil_iff.mpr fun q hq => ?_⟩
      simp [hfresh q hq]
    · exact .inr ⟨g, hg.aside (.congr rfl rfl rfl)⟩

/-- Every part of the message takes it one step further, and a repeated one changes nothing. -/
theorem Imported.assembling {r : ImportResult} (h : Imported w p now forwarding t r u)
    (hc : Constraints t) (ht : Consistent t) (hp : p ∈ m.parts) (hstart : start ≤ now)
    (hwindow : now ≤ start + w.lateFragmentWindow) (hbefore : Assembling m start t) :
    Assembling m start u := by
  have hsources := h.sourceOf_iff
  cases h with
  | duplicate source hsource hdup =>
    refine hbefore.aside (.congr rfl rfl rfl) fun q hq => ?_
    rw [Bool.eq_iff_iff, sourceOf_touchSource]
    rfl
  -- the message has several parts
  | single hnew hone hdup =>
    rw [total_eq hp] at hone
    have hmany := m.many
    omega
  | @part v hnew hmany hdup hlow hhigh hvalid hstored =>
    have hunknown : (t.sourceOf p).isSome = false := by rw [hnew]; rfl
    obtain ⟨g, hg, hshown⟩ := hstored.inGroup hvalid (ht.registered hc p now)
      (hbefore.awaited hp hstart hwindow hunknown)
    have hcommitted : Aside m v (v.commitSource t.sources.nextId) := .congr rfl rfl rfl
    exact .inr ⟨g, (hg.perm (received_perm hp hunknown hsources)).aside hcommitted,
      hshown.aside hg hcommitted⟩

end Part

/-! ## Runs -/

/-- **One step** of the traffic keeps the tables in order. -/
theorem Assembling.step (h : Assembling m start s.db.data) (hs : Consistent s.db.data) {op : Op}
    (hop : m.Traffic s.windows start op) : Assembling m start (s.step op).db.data := by
  have heffect := s.step_effect op
  generalize (s.step op).db.data = u at heffect ⊢
  cases heffect with
  | unchanged => exact h
  | imported himported =>
    cases hop with
    | part hp hstart hwindow => exact himported.assembling s.db.valid hs hp hstart hwindow h
    | other hkey hsource => exact h.aside (himported.aside hkey) (himported.sourceOf_other hsource)
  | published hpublished => exact hpublished.assembling s.db.valid h
  | _ => cases hop

/-- Sources stay known. -/
theorem known_step {q : SmsSegment} (hknown : (s.db.data.sourceOf q).isSome = true) {op : Op}
    (hop : m.Traffic s.windows start op) : ((s.step op).db.data.sourceOf q).isSome = true := by
  have heffect := s.step_effect op
  generalize (s.step op).db.data = u at heffect ⊢
  cases heffect with
  | unchanged => exact hknown
  | imported himported => exact (himported.sourceOf_iff q).mpr (.inl hknown)
  | published hpublished =>
    rw [sourceOf, hpublished.sources]
    exact hknown
  | _ => cases hop

/-! ## The text -/

/-- Parts are put together in the order of their numbers, whatever order they came in. -/
theorem InGroup.groupContent (h : InGroup m start received t g) (hall : received.Perm m.parts) :
    t.groupContent g.id = m.content := by
  have hperm : ((t.groupSegments g.id).map (·.row.slot)).Perm (m.parts.map (·.slot)) :=
    (((perm_insertionSort _ _).map _).trans h.slots).trans (hall.map _)
  have hparts : (m.parts.map (·.slot)).Pairwise fun a b => a.1 < b.1 :=
    pairwise_map.mpr pairwise_partNumbers
  have hsegments : ((t.groupSegments g.id).map (·.row.slot)).Pairwise fun a b => a.1 < b.1 := by
    -- sorted, and without repetition because the part numbers are those of the message
    have hle : ((t.groupSegments g.id).map (·.row.slot)).Pairwise fun a b => a.1 ≤ b.1 :=
      pairwise_map.mpr (pairwise_insertionSort _ _)
    have hne : ((t.groupSegments g.id).map (·.row.slot)).Pairwise fun a b => a.1 ≠ b.1 :=
      (hperm.symm.pairwise_iff fun hab => Ne.symm hab).mp (hparts.imp fun hlt => hlt.ne)
    exact (hle.and hne).imp fun hab => lt_of_le_of_ne hab.1 hab.2
  have heq := Perm.eq_of_pairwise (fun a b _ _ hab hba => absurd hab hba.not_gt) hsegments
    hparts hperm
  have htext := congrArg (fun l => l.flatMap Prod.snd) heq
  rwa [flatMap_map, flatMap_map] at htext

/-! ## The number of messages -/

theorem mem_messagesFor {key : ModemId × Text × ℤ × ℤ} {x : Entry Message} :
    x ∈ t.messagesFor key ↔
      x ∈ t.messages ∧ ∃ g ∈ t.groups, x.row.groupId = some g.id ∧ g.row.groupKey = key := by
  simp [messagesFor, mem_rows]

/-- There is one group for the message, and one message for a group. -/
theorem Assembling.messagesFor_eq (h : Assembling m start t) (hc : Constraints t)
    {x y : Entry Message} (hx : x ∈ t.messagesFor m.groupKey) (hy : y ∈ t.messagesFor m.groupKey) :
    x = y := by
  obtain ⟨hx, g, hg, hxg, hgkey⟩ := mem_messagesFor.mp hx
  obtain ⟨hy, g', hg', hyg, hgkey'⟩ := mem_messagesFor.mp hy
  rcases h with ⟨hfresh, -⟩ | ⟨k, hk, -⟩
  · exact absurd hgkey (hfresh g hg)
  · rw [hk.only g hg hgkey] at hxg
    rw [hk.only g' hg' hgkey'] at hyg
    exact hc.messages_group_unique.eq hx hy hxg hyg

/-- There is one group, so there is one message at most. -/
theorem Assembling.length_messagesFor (h : Assembling m start t) (hc : Constraints t) :
    (t.messagesFor m.groupKey).length ≤ 1 := by
  have hnodup : (t.messagesFor m.groupKey).Nodup := (Nodup.of_map _ t.messages.nodup_ids).filter _
  cases hlist : t.messagesFor m.groupKey with
  | nil => exact Nat.zero_le 1
  | cons x rest =>
    cases rest with
    | nil => exact le_refl 1
    | cons y rest =>
      have hsame := h.messagesFor_eq hc (x := x) (y := y) (by simp [hlist]) (by simp [hlist])
      rw [hlist, hsame] at hnodup
      exact absurd mem_cons_self (nodup_cons.mp hnodup).1

/-- Once all sources are known, the message is complete. -/
theorem Assembling.complete (h : Assembling m start t) (hc : Constraints t) (ht : Consistent t)
    (hall : ∀ p ∈ m.parts, (t.sourceOf p).isSome = true) :
    ∃ x, t.messagesFor m.groupKey = [x] ∧ x.row.complete = true ∧ x.row.content = m.content := by
  rcases id h with ⟨-, hfresh⟩ | ⟨g, hg, hshown⟩
  · -- the message has at least one part, and its source is known
    obtain ⟨p, hp⟩ := exists_mem_of_length_pos (Nat.zero_lt_of_lt m.many)
    have hknown := hall p hp
    rw [hfresh p hp] at hknown
    cases hknown
  · have hreceived : m.received t = m.parts := filter_eq_self.mpr hall
    rw [hreceived] at hg
    have hparts : t.hasAllParts g = true := by
      rw [hasAllParts, hg.partCount, hg.totalParts]
      exact decide_eq_true le_rfl
    obtain ⟨x, hx, hgroup, hcontent⟩ := hshown hparts
    have hmem : x ∈ t.messagesFor m.groupKey := mem_messagesFor.mpr ⟨hx, g, hg.mem, hgroup, hg.key⟩
    refine ⟨x, ?_, ?_, ?_⟩
    · obtain ⟨y, hy⟩ := length_eq_one_iff.mp
        (Nat.le_antisymm (h.length_messagesFor hc) (length_pos_of_mem hmem))
      rw [hy, mem_singleton] at hmem
      rw [hy, hmem]
    · rw [ht.marked x hx g hg.mem hgroup id, hparts]
    · rw [hcontent, hg.groupContent (Perm.refl _)]

/-! ## The whole arrival -/

theorem MultipartMessage.Traffic.windows {op : Op} (h : m.Traffic w start op) :
    (s.step op).windows = s.windows := by
  cases h <;> exact State.commit_windows _

/-- What holds in every state of the arrival. -/
structure Arriving (m : MultipartMessage) (w : Windows) (start : ℤ) (s : State) : Prop where
  windows : s.windows = w
  consistent : Consistent s.db.data
  assembling : Assembling m start s.db.data

theorem Arriving.step (h : Arriving m w start s) {op : Op} (hop : m.Traffic w start op) :
    Arriving m w start (s.step op) where
  windows := hop.windows.trans h.windows
  consistent := h.consistent.step op
  assembling := h.assembling.step h.consistent (h.windows ▸ hop)

/-- A part that has been imported somewhere in the run is known at its end. -/
theorem Arriving.known (h : Arriving m w start s) {ops : List Op}
    (hops : ∀ op ∈ ops, m.Traffic w start op) {p : SmsSegment} (hp : p ∈ m.parts)
    (hmem : Op.importSegment p now forwarding ∈ ops) :
    ((run State.step s ops).db.data.sourceOf p).isSome = true := by
  obtain ⟨before, after, rfl⟩ := append_of_mem hmem
  rw [run_append, run_cons]
  have hbefore : Arriving m w start (run State.step s before) :=
    (throughout_of_step h fun s op hop hs =>
      hs.step (hops op (mem_append_left _ hop))).last
  -- the import itself succeeds
  have himport : (((run State.step s before).step (.importSegment p now forwarding)).db.data.sourceOf
      p).isSome = true := by
    have hrange := partNumber_range hp
    obtain ⟨r, db, heq⟩ := @importSegment_succeeds (run State.step s before).db forwarding now
      (run State.step s before).windows p (m.index p hp)
      (fun _ _ => by rw [total_eq hp]; exact hrange)
    simp only [State.step, State.commit, heq]
    exact ((importSegment_eq_some heq).sourceOf_iff p).mpr (.inr rfl)
  refine (throughout_of_step (p := fun s : State => s.windows = w ∧ (s.db.data.sourceOf p).isSome = true)
    ⟨?_, himport⟩ fun s op hop hs => ?_).last.2
  · exact (hops _ hmem).windows.trans hbefore.windows
  · have htraffic := hops op (mem_append_right _ (mem_cons_of_mem _ hop))
    exact ⟨htraffic.windows.trans hs.1, known_step hs.2 (hs.1 ▸ htraffic)⟩

/-- **Reassembly**: in whatever order and however often the parts of a message arrive, and whatever
is published in between, there is never more than one message for it, and in the end there is one,
complete and with the text of all parts in order. -/
theorem reassembly (hs : s.Reachable) (hfresh : m.Fresh s.db.data) {ops : List Op}
    (hops : ∀ op ∈ ops, m.Traffic s.windows start op)
    (hall : ∀ p ∈ m.parts, ∃ now forwarding, Op.importSegment p now forwarding ∈ ops) :
    Throughout State.step (fun s => (s.db.data.messagesFor m.groupKey).length ≤ 1) s ops ∧
      ∃ x, (run State.step s ops).db.data.messagesFor m.groupKey = [x] ∧ x.row.complete = true ∧
        x.row.content = m.content := by
  have harriving : Arriving m s.windows start s := ⟨rfl, hs.consistent, .inl hfresh⟩
  have hthroughout : Throughout State.step (Arriving m s.windows start) s ops :=
    throughout_of_step harriving fun s op hop hs => hs.step (hops op hop)
  refine ⟨hthroughout.imp fun s hs => hs.assembling.length_messagesFor s.db.valid, ?_⟩
  refine hthroughout.last.assembling.complete (State.db _).valid hthroughout.last.consistent ?_
  intro p hp
  obtain ⟨now, forwarding, hmem⟩ := hall p hp
  exact harriving.known hops hp hmem

/-- The first part of a message `AB` of two parts. -/
def partA : SmsSegment where
  modemId := ⟨[0x61], validId_a⟩
  storage := [0x53, 0x4d]
  sourceIndex := 0
  pdu := [0x30]
  sender := [0x31, 0x32]
  timestamp := 100
  content := [0x41]
  reference := 7
  totalParts := 2
  partNumber := 1

def partB : SmsSegment :=
  { partA with sourceIndex := 1, pdu := [0x31], content := [0x42], partNumber := 2 }

def messageAB : MultipartMessage where
  modemId := partA.modemId
  sender := partA.sender
  reference := partA.reference
  parts := [partA, partB]
  many := by decide
  key := by decide
  numbered := by decide
  index := by decide
  sources := by decide

/-- The second part comes first and twice, and the incomplete message is published. -/
theorem reassembly_reversed :
    ∃ x, (run State.step State.initial [.importSegment partB 1000 true,
      .publishExpired partA.modemId 1400 true ⟨id, List.Perm.refl⟩, .importSegment partB 1500 true,
      .importSegment partA 2000 true]).db.data.messagesFor messageAB.groupKey = [x] ∧
      x.row.complete = true ∧ x.row.content = [0x41, 0x42] := by
  refine (@reassembly messageAB 1000 State.initial ⟨[], rfl⟩ ?_ _ ?_ ?_).2
  · exact ⟨fun g hg => absurd hg notMem_empty, by decide⟩
  · -- the parts in the wrong order, one of them twice, with a publication in between
    have hpartA : partA ∈ messageAB.parts := by decide
    have hpartB : partB ∈ messageAB.parts := by decide
    simp only [forall_mem_cons]
    exact ⟨.part hpartB (by decide) (by decide) true, .publish _ _ _ _,
      .part hpartB (by decide) (by decide) true, .part hpartA (by decide) (by decide) true,
      forall_mem_nil _⟩
  · simp only [messageAB, forall_mem_cons]
    exact ⟨⟨2000, true, by simp⟩, ⟨1000, true, by simp⟩, forall_mem_nil _⟩

end QModem.Smsd
