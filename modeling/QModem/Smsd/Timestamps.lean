import QModem.Smsd.Reassembly

/-!
# Timestamps of Multipart Messages

A message in several parts takes its timestamp from the parts that are there when it is first
published; the update path for late fragments leaves it alone.

## Main definitions

- `Tables.stamps`: the timestamps of the messages with a key
- `Dated`: the segments of the message carry the timestamps of its parts
- `Timely`: a first publication in which a part with the smallest timestamp takes part

## Main results

- `Timing.times`: what one step does to the timestamp
- `least_timestamp_iff`: the complete message has the smallest timestamp exactly when its first
  publication was timely
-/

namespace QModem.Smsd

open Lib Transaction List Table Tables

variable {m : MultipartMessage} {w : Windows} {start : ℤ} {t u v : Tables} {s : State}

/-- The timestamps of the messages of all groups with a key. -/
def Tables.stamps (t : Tables) (key : ModemId × Text × ℤ × ℤ) : Set ℤ :=
  {ts | ∃ x ∈ t.messagesFor key, x.row.timestamp = ts}

def timestamps (parts : List SmsSegment) : Set ℤ := {ts | ∃ p ∈ parts, p.timestamp = ts}

/-- The segments in the group of the message are parts of it, timestamps included. -/
def Dated (m : MultipartMessage) (t : Tables) : Prop :=
  ∀ g ∈ t.groups, g.row.groupKey = m.groupKey → ∀ e ∈ t.segmentsOf g.id,
    ∃ p ∈ m.parts, e.row.slot = p.slot ∧ e.row.timestamp = p.timestamp

/-! ## Segments carry the timestamps of the parts -/

theorem MultipartMessage.Fresh.dated (h : m.Fresh t) : Dated m t :=
  fun g hg hkey => absurd hkey (h.1 g hg)

theorem Dated.aside (h : Dated m t) (hu : Aside m t u) : Dated m u := by
  intro g hg hkey e he
  have hmem := (hu.groups g hkey).mp hg
  rw [hu.segments g hmem hkey] at he
  exact h g hmem hkey e he

theorem Dated.published (h : Dated m t) (x : Entry Group) (now : ℤ) (forwarding : Bool) :
    Dated m (t.published x now forwarding) := by
  intro g hg hkey e he
  rw [published_groups] at hg
  rw [segmentsOf, published_segments] at he
  exact h g hg hkey e he

theorem PublishedAll.dated {now : ℤ} {forwarding : Bool} {ids : List ℕ}
    (h : PublishedAll now forwarding ids t u) (ht : Dated m t) : Dated m u := by
  induction h with
  | nil => exact ht
  | cons g hg hvalid _ ih => exact ih (ht.published g now forwarding)

section Part

variable {p : SmsSegment} {sourceId groupId : ℕ} {now : ℤ} {forwarding : Bool}

/-- A new group has no segments. -/
theorem GroupFor.dated (h : GroupFor w p now t groupId u) (hc : Constraints t) (ht : Dated m t) :
    Dated m u := by
  cases h with
  | found x hlookup => exact ht
  | created hlookup hvalid =>
    intro g hg hkey e he
    rcases mem_insert.mp hg with hg | rfl
    · exact ht g hg hkey e he
    · rw [segmentsOf_insertGroup hc] at he
      cases he

/-- The segment gets the timestamp of its part. -/
theorem Dated.withPart (h : Dated m t) (hp : p ∈ m.parts) :
    Dated m (t.withPart p groupId sourceId now) := by
  intro g hg hkey e he
  -- touching the group keeps its key and its number
  have hold : ∃ g' ∈ t.groups, g'.id = g.id ∧ g'.row.groupKey = m.groupKey := by
    rcases mem_updateWhere.mp hg with ⟨hg, -⟩ | ⟨x, hx, -, rfl⟩
    · exact ⟨g, hg, rfl, hkey⟩
    · exact ⟨x, hx, rfl, hkey⟩
  obtain ⟨g', hg', hid, hkey'⟩ := hold
  obtain ⟨he, hgroup⟩ := mem_select.mp he
  dsimp only [Tables.withPart, Tables.touchGroup, Tables.insertSegment] at he
  have hmem : e ∈ t.segments ∨ e.row = p.asPart groupId sourceId := by
    split at he
    · exact .inl he
    · exact (mem_insert.mp he).imp_right fun hnew => by rw [hnew]
  rcases hmem with hmem | hrow
  · exact h g' hg' hkey' e (mem_select.mpr ⟨hmem, hid ▸ hgroup⟩)
  · exact ⟨p, hp, by rw [hrow]; rfl, by rw [hrow]; rfl⟩

theorem PartStored.dated (h : PartStored w p sourceId now forwarding t u) (hc : Constraints t)
    (ht : Dated m t) (hp : p ∈ m.parts) : Dated m u := by
  cases h with
  | waiting hgroup hcount => exact (hgroup.dated hc ht).withPart hp
  | published hgroup hvalid hcount g hg hid =>
    exact ((hgroup.dated hc ht).withPart hp).published g now forwarding

theorem Imported.dated {r : ImportResult} (h : Imported w p now forwarding t r u)
    (ht : Dated m t) (hp : p ∈ m.parts) : Dated m u := by
  cases h with
  | duplicate source hsource hdup => exact ht.aside (Aside.congr rfl rfl rfl)
  | single hnew hone hdup => exact ht
  | part hnew hmany hdup hlow hhigh hvalid hstored => exact hstored.dated hvalid ht hp

end Part

/-- Traffic of this and other messages keeps the timestamps. -/
theorem Dated.step (h : Dated m s.db.data) {op : Op} (hop : m.Traffic w start op) :
    Dated m (s.step op).db.data := by
  have heffect := s.step_effect op
  generalize (s.step op).db.data = u at heffect ⊢
  cases heffect with
  | unchanged => exact h
  | imported himported =>
    cases hop with
    | part hp => exact himported.dated h hp
    | other hkey => exact h.aside (himported.aside hkey)
  | published hpublished => exact hpublished.dated h
  | _ => cases hop

/-! ## The timestamp of a group -/

section Group

variable {g : Entry Group} {received : List SmsSegment}

/-- The timestamp of a group with parts is the smallest one of its segments. -/
theorem isLeast_groupTimestamp (hne : t.segmentsOf g.id ≠ []) :
    IsLeast {ts | ∃ e ∈ t.segmentsOf g.id, e.row.timestamp = ts} (t.groupTimestamp g.id) := by
  have hmem : ∀ ts, ts ∈ (t.groupSegments g.id).map (·.row.timestamp) ↔
      ∃ e ∈ t.segmentsOf g.id, e.row.timestamp = ts := by
    intro ts
    simp [groupSegments, segmentsOf]
  unfold groupTimestamp
  split
  · rename_i hnil
    obtain ⟨e, he⟩ := exists_mem_of_ne_nil _ hne
    have := (hmem _).mpr ⟨e, he, rfl⟩
    rw [hnil] at this
    cases this
  · rename_i first rest hcons
    -- the running minimum of `group_content`
    have hmin : (first :: rest).min? = some (rest.foldl min first) := min?_cons'
    obtain ⟨hleast, hle⟩ := min?_eq_some_iff.mp hmin
    simp only [← hmem, hcons]
    exact ⟨hleast, hle⟩

/-- Segments and received parts have the same timestamps. -/
theorem InGroup.timestamps_eq (h : InGroup m start received t g) (hd : Dated m t)
    (hsub : ∀ q ∈ received, q ∈ m.parts) :
    {ts | ∃ e ∈ t.segmentsOf g.id, e.row.timestamp = ts} = timestamps received := by
  -- the slot says which part it is, and that one has the timestamp
  have hpart : ∀ e ∈ t.segmentsOf g.id, ∀ q ∈ received, e.row.slot = q.slot →
      e.row.timestamp = q.timestamp := by
    intro e he q hq hslot
    obtain ⟨p, hp, hslot', hts⟩ := hd g h.mem h.key e he
    have hnumber : p.partNumber = q.partNumber := congrArg Prod.fst (hslot'.symm.trans hslot)
    rw [hts, MultipartMessage.eq_of_partNumber_eq hp (hsub q hq) hnumber]
  ext ts
  constructor
  · rintro ⟨e, he, rfl⟩
    obtain ⟨q, hq, hslot⟩ := mem_map.mp (h.slots.mem_iff.mp (mem_map_of_mem he))
    exact ⟨q, hq, (hpart e he q hq hslot.symm).symm⟩
  · rintro ⟨q, hq, rfl⟩
    obtain ⟨e, he, hslot⟩ := mem_map.mp (h.slots.mem_iff.mpr (mem_map_of_mem hq))
    exact ⟨e, he, hpart e he q hq hslot⟩

theorem InGroup.isLeast_groupTimestamp (h : InGroup m start received t g) (hd : Dated m t)
    (hsub : ∀ q ∈ received, q ∈ m.parts) (hne : received ≠ []) :
    IsLeast (timestamps received) (t.groupTimestamp g.id) := by
  rw [← h.timestamps_eq hd hsub]
  refine Smsd.isLeast_groupTimestamp fun hnil => hne ?_
  have hlength := h.slots.length_eq
  rw [hnil] at hlength
  exact length_eq_zero_iff.mp (by simpa using hlength.symm)

end Group

/-! ## What one step does to the timestamp -/

/-- The message keeps its timestamp, or it gets one for the first time: the smallest one of the
parts received by then. -/
def Times (m : MultipartMessage) (received : List SmsSegment) (t u : Tables) : Prop :=
  u.stamps m.groupKey = t.stamps m.groupKey ∨
    t.stamps m.groupKey = ∅ ∧ ∃ ts, u.stamps m.groupKey = {ts} ∧ IsLeast (timestamps received) ts

variable {received : List SmsSegment}

theorem Times.trans (h : Times m received t u) (h' : Times m received u v) :
    Times m received t v := by
  rcases h with hsame | ⟨hnone, ts, hfirst, hleast⟩
  · rwa [Times, hsame] at h'
  · rcases h' with hsame' | ⟨hnone', -⟩
    · exact .inr ⟨hnone, ts, hsame'.trans hfirst, hleast⟩
    · rw [hfirst] at hnone'
      exact absurd hnone' (Set.singleton_ne_empty ts)

theorem mem_stamps {key : ModemId × Text × ℤ × ℤ} {ts : ℤ} :
    ts ∈ t.stamps key ↔ ∃ g ∈ t.groups, g.row.groupKey = key ∧
      ∃ x ∈ t.messages, x.row.groupId = some g.id ∧ x.row.timestamp = ts := by
  constructor
  · rintro ⟨x, hmem, hts⟩
    obtain ⟨hx, g, hg, hgroup, hkey⟩ := mem_messagesFor.mp hmem
    exact ⟨g, hg, hkey, x, hx, hgroup, hts⟩
  · rintro ⟨g, hg, hkey, x, hx, hgroup, hts⟩
    exact ⟨x, mem_messagesFor.mpr ⟨hx, g, hg, hgroup, hkey⟩, hts⟩

def groupStamps (t : Tables) (groupId : ℕ) : Set ℤ :=
  {ts | ∃ x ∈ t.messages, x.row.groupId = some groupId ∧ x.row.timestamp = ts}

theorem InGroup.stamps {g : Entry Group} (h : InGroup m start received t g) :
    t.stamps m.groupKey = groupStamps t g.id := by
  ext ts
  rw [mem_stamps]
  constructor
  · rintro ⟨x, hx, hkey, hmessage⟩
    rwa [← h.only x hx hkey]
  · exact fun hmessage => ⟨g, h.mem, h.key, hmessage⟩

/-- Publishing a group gives its message a timestamp once. -/
theorem groupStamps_published (hc : Constraints t) (g : Entry Group) (now : ℤ) (forwarding : Bool) :
    groupStamps (t.published g now forwarding) g.id = groupStamps t g.id ∨
      groupStamps t g.id = ∅ ∧
        groupStamps (t.published g now forwarding) g.id = {t.groupTimestamp g.id} := by
  unfold published
  split
  · rename_i x hx
    obtain ⟨hmem, hgroup⟩ := (messageOfGroup_eq_some hc).mp hx
    refine .inl ?_
    split
    · rfl
    · -- the update sets neither the group nor the timestamp
      ext ts
      constructor
      · rintro ⟨y, hy, hygroup, hts⟩
        rcases mem_updateWhere.mp hy with ⟨hy, -⟩ | ⟨z, hz, -, rfl⟩
        · exact ⟨y, hy, hygroup, hts⟩
        · exact ⟨z, hz, hygroup, hts⟩
      · rintro ⟨y, hy, hygroup, hts⟩
        obtain rfl := hc.messages_group_unique.eq hy hmem hygroup hgroup
        exact ⟨_, mem_updateWhere.mpr (.inr ⟨y, hy, decide_eq_true rfl, rfl⟩), hygroup, hts⟩
  · rename_i hnone
    have hno := messageOfGroup_eq_none.mp hnone
    refine .inr ⟨Set.eq_empty_of_forall_notMem ?_, ?_⟩
    · rintro ts ⟨y, hy, hygroup, -⟩
      exact hno y hy hygroup
    · ext ts
      constructor
      · rintro ⟨y, hy, hygroup, hts⟩
        rcases mem_insert.mp hy with hy | rfl
        · exact absurd hygroup (hno y hy)
        · exact hts.symm
      · rintro rfl
        exact ⟨_, mem_insert.mpr (.inr rfl), rfl, rfl⟩

theorem InGroup.times_published {g : Entry Group} (h : InGroup m start received t g)
    (hc : Constraints t) (hd : Dated m t) (hsub : ∀ q ∈ received, q ∈ m.parts) (hne : received ≠ [])
    (now : ℤ) (forwarding : Bool) : Times m received t (t.published g now forwarding) := by
  rw [Times, h.stamps, (h.published g now forwarding).stamps]
  exact (groupStamps_published hc g now forwarding).imp_right fun ⟨hnone, hfirst⟩ =>
    ⟨hnone, _, hfirst, h.isLeast_groupTimestamp hd hsub hne⟩

theorem Aside.stamps (h : Aside m t u) : u.stamps m.groupKey = t.stamps m.groupKey := by
  ext ts
  simp only [mem_stamps]
  constructor
  · rintro ⟨g, hg, hkey, x, hx, hgroup, hts⟩
    have hmem := (h.groups g hkey).mp hg
    exact ⟨g, hmem, hkey, x, (h.messages g hmem hkey x hgroup).mp hx, hgroup, hts⟩
  · rintro ⟨g, hg, hkey, x, hx, hgroup, hts⟩
    exact ⟨g, (h.groups g hkey).mpr hg, hkey, x, (h.messages g hg hkey x hgroup).mpr hx, hgroup, hts⟩

/-! ### Publishing -/

/-- A group is only there when a part is. -/
def Begun (m : MultipartMessage) (t : Tables) : Prop :=
  ∀ g ∈ t.groups, g.row.groupKey = m.groupKey → m.received t ≠ []

theorem received_congr (h : u.sources = t.sources) : m.received u = m.received t := by
  simp only [MultipartMessage.received, sourceOf, h]

theorem received_sub {p : SmsSegment} (hp : p ∈ m.received t) : p ∈ m.parts :=
  mem_of_mem_filter hp

theorem Begun.congr (h : Begun m t) (hgroups : u.groups = t.groups) (hsources : u.sources = t.sources) :
    Begun m u := by
  rw [Begun, hgroups, received_congr hsources]
  exact h

/-- Publishing gives the message its timestamp at most once. -/
theorem PublishedAll.times {now : ℤ} {forwarding : Bool} {ids : List ℕ}
    (h : PublishedAll now forwarding ids t u) (hc : Constraints t) (ha : Assembling m start t)
    (hd : Dated m t) (hb : Begun m t) : Times m (m.received t) t u := by
  induction h with
  | nil => exact .inl rfl
  | @cons rest t u x hx hvalid _ ih =>
    have hrest := ih hvalid (ha.published hc hx now forwarding) (hd.published x now forwarding)
      (hb.congr published_groups published_sources)
    rw [received_congr published_sources] at hrest
    refine Times.trans ?_ hrest
    -- only the group of the message matters
    by_cases hkey : x.row.groupKey = m.groupKey
    · rcases ha with ⟨hfresh, -⟩ | ⟨g, hg, -⟩
      · exact absurd hkey (hfresh x hx)
      · obtain rfl := hg.only x hx hkey
        exact hg.times_published hc hd (fun q => received_sub) (hb x hx hkey) now forwarding
    · exact .inl (aside_published hc hx hkey now forwarding).stamps

/-! ### A part of the message -/

section Part

variable {p : SmsSegment} {sourceId groupId : ℕ} {now : ℤ} {forwarding : Bool}
  {received : List SmsSegment}

/-- A new group has no message. -/
theorem GroupFor.stamps (h : GroupFor w p now t groupId u) (hc : Constraints t)
    (key : ModemId × Text × ℤ × ℤ) : u.stamps key = t.stamps key := by
  cases h with
  | found x hlookup => rfl
  | created hlookup hvalid =>
    ext ts
    simp only [mem_stamps]
    constructor
    · rintro ⟨g, hg, hkey, x, hx, hgroup, hts⟩
      rcases mem_insert.mp hg with hg | rfl
      · exact ⟨g, hg, hkey, x, hx, hgroup, hts⟩
      · exact absurd (hc.messages_group x hx _ hgroup) t.groups.nextId_notMem_ids
    · rintro ⟨g, hg, hkey, hmessage⟩
      exact ⟨g, mem_insert.mpr (.inl hg), hkey, hmessage⟩

/-- With the part the message may be published, by the parts received up to this one. -/
theorem PartStored.times (h : PartStored w p sourceId now forwarding t u) (hc : Constraints t)
    (ht : Consistent t) (hd : Dated m t) (hp : Awaited m w start received p now t) :
    Times m (received ++ [p]) t u := by
  -- up to the part in its group no message has changed
  have hstored : ∀ {groupId : ℕ} {v : Tables}, GroupFor w p now t groupId v →
      ∃ g, g.id = groupId ∧ Dated m (v.withPart p g.id sourceId now) ∧
        InGroup m start (received ++ [p]) (v.withPart p g.id sourceId now) (touchedGroup g now) ∧
        (v.withPart p g.id sourceId now).stamps m.groupKey = t.stamps m.groupKey := by
    intro groupId v hgroup
    obtain ⟨g, rfl, hg, hpart⟩ := hgroup.withPart hc ht hp sourceId
    refine ⟨g, rfl, (hgroup.dated hc hd).withPart hp.part, hpart, ?_⟩
    rw [← hgroup.stamps hc, hg.stamps, hpart.stamps]
    rfl
  cases h with
  | waiting hgroup hcount =>
    obtain ⟨g, rfl, -, -, hstamps⟩ := hstored hgroup
    exact .inl hstamps
  | published hgroup hvalid hcount x hx hid =>
    obtain ⟨g, rfl, hdated, hpart, hstamps⟩ := hstored hgroup
    obtain rfl : x = touchedGroup g now := eq_of_id_eq hx hpart.mem hid
    have htimes := hpart.times_published hvalid hdated
      (by simpa [or_imp, forall_and] using ⟨hp.sub, hp.part⟩) (by simp) now forwarding
    rwa [Times, hstamps] at htimes

theorem timestamps_perm {parts parts' : List SmsSegment} (h : parts.Perm parts') :
    timestamps parts = timestamps parts' := by
  simp only [timestamps, h.mem_iff]

/-- One part of the message, as it arrives. -/
theorem Imported.times {r : ImportResult} (h : Imported w p now forwarding t r u)
    (hc : Constraints t) (ht : Consistent t) (ha : Assembling m start t) (hd : Dated m t)
    (hp : p ∈ m.parts) (hstart : start ≤ now) (hwindow : now ≤ start + w.lateFragmentWindow) :
    Times m (m.received u) t u := by
  have hsources := h.sourceOf_iff
  cases h with
  | duplicate source hsource hdup => exact .inl rfl
  | single hnew hone hdup =>
    have hmany := m.many
    rw [MultipartMessage.total_eq hp] at hone
    omega
  | @part v hnew hmany hdup hlow hhigh hvalid hstored =>
    have hunknown : (t.sourceOf p).isSome = false := by rw [hnew]; rfl
    have htimes : Times m (m.received t ++ [p]) (t.registered p now) v :=
      hstored.times hvalid (ht.registered hc p now) hd (ha.awaited hp hstart hwindow hunknown)
    -- the parts received are those before and this one
    rw [Times, timestamps_perm (received_perm hp hunknown hsources)]
    exact htimes

end Part

/-! ## Runs -/

/-- What holds in every state of the arrival, timestamps included. -/
structure Timing (m : MultipartMessage) (w : Windows) (start : ℤ) (s : State) : Prop where
  arriving : Arriving m w start s
  dated : Dated m s.db.data
  begun : Begun m s.db.data

/-- A group is made for a part, and sources are not forgotten by the traffic. -/
theorem Begun.step (h : Begun m s.db.data) {op : Op} (hop : m.Traffic w start op) :
    Begun m (s.step op).db.data := by
  have heffect := s.step_effect op
  generalize (s.step op).db.data = u at heffect ⊢
  cases heffect with
  | unchanged => exact h
  | imported himported =>
    intro g hg hgkey
    cases hop with
    | part hp =>
      -- the part itself has been received now
      have hknown := (himported.sourceOf_iff _).mpr (.inr rfl)
      exact ne_nil_of_mem (mem_filter.mpr ⟨hp, hknown⟩)
    | other hkey hsource =>
      have hreceived : m.received u = m.received s.db.data :=
        filter_congr (himported.sourceOf_other hsource)
      rw [hreceived]
      exact h g (((himported.aside hkey).groups g hgkey).mp hg) hgkey
  | published hpublished => exact h.congr hpublished.groups hpublished.sources
  | _ => cases hop

theorem Timing.step (h : Timing m w start s) {op : Op} (hop : m.Traffic w start op) :
    Timing m w start (s.step op) :=
  ⟨h.arriving.step hop, h.dated.step hop, h.begun.step hop⟩

/-- **One step** of the traffic keeps the timestamp of the message, or gives it its first one. -/
theorem Timing.times (h : Timing m w start s) {op : Op} (hop : m.Traffic w start op) :
    Times m (m.received (s.step op).db.data) s.db.data (s.step op).db.data := by
  obtain ⟨⟨rfl, hconsistent, hassembling⟩, hdated, hbegun⟩ := h
  have heffect := s.step_effect op
  generalize (s.step op).db.data = u at heffect ⊢
  cases heffect with
  | unchanged => exact .inl rfl
  | imported himported =>
    cases hop with
    | part hp hstart hwindow =>
      exact himported.times s.db.valid hconsistent hassembling hdated hp hstart hwindow
    | other hkey => exact .inl (himported.aside hkey).stamps
  | published hpublished =>
    rw [received_congr hpublished.sources]
    exact hpublished.times s.db.valid hassembling hdated hbegun
  -- no other operation is part of the traffic
  | _ => cases hop

/-- If the step publishes the message for the first time, a part with the smallest timestamp of all
parts has been received by then. -/
def Timely (m : MultipartMessage) (s : State) (op : Op) : Prop :=
  s.db.data.stamps m.groupKey = ∅ → (s.step op).db.data.stamps m.groupKey ≠ ∅ →
    ∃ p ∈ m.received (s.step op).db.data, IsLeast (timestamps m.parts) p.timestamp

/-- A timestamp the message has is never changed. -/
theorem Timing.kept (h : Timing m w start s) {ops : List Op}
    (hops : ∀ op ∈ ops, m.Traffic w start op) {ts : ℤ} (hts : s.db.data.stamps m.groupKey = {ts}) :
    (run State.step s ops).db.data.stamps m.groupKey = {ts} ∧ Along State.step (Timely m) s ops := by
  induction ops generalizing s with
  | nil => exact ⟨hts, trivial⟩
  | cons op ops ih =>
    have hop := hops op mem_cons_self
    have hne : s.db.data.stamps m.groupKey ≠ ∅ := hts ▸ Set.singleton_ne_empty ts
    rcases h.times hop with hsame | ⟨hnone, -⟩
    · obtain ⟨hlast, halong⟩ := ih (h.step hop) (fun op hop => hops op (mem_cons_of_mem _ hop))
        (hsame.trans hts)
      exact ⟨hlast, fun hnone => absurd hnone hne, halong⟩
    · exact absurd hnone hne

/-- The smallest timestamp of some parts is that of all parts exactly when one of them has it. -/
theorem isLeast_iff_of_sub {received parts : List SmsSegment} (hsub : ∀ p ∈ received, p ∈ parts)
    {ts : ℤ} (h : IsLeast (timestamps received) ts) :
    IsLeast (timestamps parts) ts ↔ ∃ p ∈ received, IsLeast (timestamps parts) p.timestamp := by
  obtain ⟨⟨p, hp, rfl⟩, hle⟩ := h
  refine ⟨fun hleast => ⟨p, hp, hleast⟩, ?_⟩
  rintro ⟨q, hq, -, hlower⟩
  exact ⟨⟨p, hsub p hp, rfl⟩, fun ts hts => (hle ⟨q, hq, rfl⟩).trans (hlower hts)⟩

/-- A run from before the first publication: the message has no timestamp yet, or the one it got
is the smallest exactly when the publication was timely. -/
theorem Timing.run (h : Timing m w start s) {ops : List Op}
    (hops : ∀ op ∈ ops, m.Traffic w start op) (hnone : s.db.data.stamps m.groupKey = ∅) :
    (run State.step s ops).db.data.stamps m.groupKey = ∅ ∨
      ∃ ts, (run State.step s ops).db.data.stamps m.groupKey = {ts} ∧
        (IsLeast (timestamps m.parts) ts ↔ Along State.step (Timely m) s ops) := by
  induction ops generalizing s with
  | nil => exact .inl hnone
  | cons op ops ih =>
    have hop := hops op mem_cons_self
    have hrest := fun op hop => hops op (mem_cons_of_mem _ hop)
    rcases h.times hop with hsame | ⟨-, ts, hfirst, hleast⟩
    · have hnone' := hsame.trans hnone
      refine (ih (h.step hop) hrest hnone').imp_right ?_
      rintro ⟨ts, hlast, hiff⟩
      exact ⟨ts, hlast, hiff.trans ⟨fun hal => ⟨fun _ hne => absurd hnone' hne, hal⟩, And.right⟩⟩
    · -- this step publishes the message; nothing changes its timestamp any more
      obtain ⟨hlast, halong⟩ := (h.step hop).kept hrest hfirst
      have htimely : Timely m s op ↔
          ∃ p ∈ m.received (s.step op).db.data, IsLeast (timestamps m.parts) p.timestamp :=
        ⟨fun ht => ht hnone (hfirst ▸ Set.singleton_ne_empty ts), fun ht _ _ => ht⟩
      refine .inr ⟨ts, hlast, ?_⟩
      rw [isLeast_iff_of_sub (fun p => received_sub) hleast, ← htimely]
      exact ⟨fun ht => ⟨ht, halong⟩, And.left⟩

theorem MultipartMessage.Fresh.stamps (h : m.Fresh t) : t.stamps m.groupKey = ∅ := by
  refine Set.eq_empty_of_forall_notMem fun ts hts => ?_
  obtain ⟨g, hg, hkey, -⟩ := mem_stamps.mp hts
  exact h.1 g hg hkey

/-- **Timestamp of a multipart message**: once all parts have arrived there is one complete message,
and its timestamp is the smallest one of the parts exactly when, at its first publication, a part
with that timestamp was there. -/
theorem least_timestamp_iff (hs : s.Reachable) (hfresh : m.Fresh s.db.data) {ops : List Op}
    (hops : ∀ op ∈ ops, m.Traffic s.windows start op)
    (hall : ∀ p ∈ m.parts, ∃ now forwarding, Op.importSegment p now forwarding ∈ ops) :
    (∃ x, (run State.step s ops).db.data.messagesFor m.groupKey = [x] ∧ x.row.complete = true ∧
        IsLeast (timestamps m.parts) x.row.timestamp) ↔
      Along State.step (Timely m) s ops := by
  have htiming : Timing m s.windows start s :=
    ⟨⟨rfl, hs.consistent, .inl hfresh⟩, hfresh.dated, fun g hg hkey => absurd hkey (hfresh.1 g hg)⟩
  have hlast : Arriving m s.windows start (run State.step s ops) :=
    (throughout_of_step htiming fun s op hop hs => hs.step (hops op hop)).last.arriving
  obtain ⟨x, hone, hcomplete, -⟩ := hlast.assembling.complete (State.db _).valid hlast.consistent
    fun p hp => by
      obtain ⟨now, forwarding, hmem⟩ := hall p hp
      exact htiming.arriving.known hops hp hmem
  -- one message, so one timestamp
  have hstamps : (run State.step s ops).db.data.stamps m.groupKey = {x.row.timestamp} := by
    ext ts
    simp only [stamps, hone, mem_singleton, exists_eq_left]
    exact eq_comm
  rcases htiming.run hops hfresh.stamps with hnone | ⟨ts, hsome, hiff⟩
  · rw [hstamps] at hnone
    exact absurd hnone (Set.singleton_ne_empty _)
  · obtain rfl := Set.singleton_injective (hstamps.symm.trans hsome)
    rw [← hiff]
    constructor
    · rintro ⟨y, hy, -, hleast⟩
      obtain rfl := singleton_inj.mp (hone.symm.trans hy)
      exact hleast
    · exact fun hleast => ⟨x, hone, hcomplete, hleast⟩

/-- The second part of `AB`, sent a little later than the first. -/
def delayedB : SmsSegment := { partB with timestamp := 105 }

def delayedAB : MultipartMessage where
  modemId := partA.modemId
  sender := partA.sender
  reference := partA.reference
  parts := [partA, delayedB]
  many := by decide
  key := by decide
  numbered := by decide
  index := by decide
  sources := by decide

/-- The second part overtakes the first, and the incomplete message is published in between. -/
def overtaken : List Op :=
  [.importSegment delayedB 1000 true, .publishExpired partA.modemId 1400 true ⟨id, List.Perm.refl⟩,
    .importSegment partA 2000 true]

/-- The part with the smaller timestamp comes after the publication. -/
theorem least_timestamp_iff_overtaken :
    (∃ x, (run State.step State.initial overtaken).db.data.messagesFor delayedAB.groupKey = [x] ∧
        x.row.complete = true ∧ IsLeast (timestamps delayedAB.parts) x.row.timestamp) ↔
      Along State.step (Timely delayedAB) State.initial overtaken := by
  refine @least_timestamp_iff delayedAB 1000 State.initial ⟨[], rfl⟩ ?_ _ ?_ ?_
  · exact ⟨fun g hg => absurd hg notMem_empty, by decide⟩
  · have hpartA : partA ∈ delayedAB.parts := by decide
    have hpartB : delayedB ∈ delayedAB.parts := by decide
    simp only [overtaken, forall_mem_cons]
    exact ⟨.part hpartB (by decide) (by decide) true, .publish _ _ _ _,
      .part hpartA (by decide) (by decide) true, forall_mem_nil _⟩
  · simp only [delayedAB, forall_mem_cons]
    exact ⟨⟨2000, true, by simp [overtaken]⟩, ⟨1000, true, by simp [overtaken]⟩, forall_mem_nil _⟩

/-- The complete message keeps the timestamp of the part that came first, although the other part
is older. -/
theorem overtaken_timestamp :
    ((run State.step State.initial overtaken).db.data.messagesFor delayedAB.groupKey).map
        (fun x => (x.row.complete, x.row.timestamp)) = [(true, 105)] ∧
      ¬ IsLeast (timestamps delayedAB.parts) 105 := by
  refine ⟨by decide +kernel, fun hleast => ?_⟩
  have hle : (105 : ℤ) ≤ 100 := hleast.2 ⟨partA, by decide, rfl⟩
  exact absurd hle (by decide)

end QModem.Smsd
