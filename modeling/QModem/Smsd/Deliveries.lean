import QModem.Smsd.Validity

/-!
# What Happens to Deliveries

A delivery belongs to one revision of one message.  Receiving only adds deliveries, claims and
reports change their state, and removing a message removes its deliveries.

## Main results

- `Imported.advanced`, `PublishedAll.advanced`: receiving adds a delivery only for the revision a
  message has afterwards, and changes a message only together with its revision
- `delivery_step`: where a delivery after any operation comes from
-/

namespace QModem.Smsd

open Lib Transaction Table Tables

variable {t u v : Tables} {s : State}

/-! ## Queueing -/

section Queue

variable {forwarding : Bool} {messageId revision : ℕ} {now : ℤ} {d : Entry Delivery}

theorem mem_queued_of_mem (hd : d ∈ t.deliveries) :
    d ∈ (t.queued forwarding messageId revision now).deliveries := by
  simp only [queued, insertDelivery]
  split
  · split
    · exact hd
    · exact mem_insert.mpr (.inl hd)
  · exact hd

theorem mem_queued (hd : d ∈ (t.queued forwarding messageId revision now).deliveries) :
    d ∈ t.deliveries ∨ d = ⟨t.deliveries.nextId, { messageId, revision, availableAt := now }⟩ := by
  simp only [queued, insertDelivery] at hd
  split at hd
  · split at hd
    · exact .inl hd
    · exact mem_insert.mp hd
  · exact .inl hd

end Queue

/-! ## Receiving -/

/-- A delivery that was not there before, for the current revision of a message. -/
structure Queued (t u : Tables) (d : Entry Delivery) (m : Entry Message) : Prop where
  fresh : d.id ∉ t.deliveries.ids
  pending : d.row.state = .pending
  mem : m ∈ u.messages
  message : m.id = d.row.messageId
  revision : m.row.revision = d.row.revision

/-- A message with the same key, unchanged or with a larger revision. -/
def Revised (m m' : Entry Message) : Prop :=
  m'.id = m.id ∧ m.row.revision ≤ m'.row.revision ∧
    (m'.row.revision = m.row.revision →
      m'.row.content = m.row.content ∧ m'.row.complete = m.row.complete)

theorem Revised.refl (m : Entry Message) : Revised m m := ⟨rfl, le_rfl, fun _ => ⟨rfl, rfl⟩⟩

theorem Revised.trans {m m' m'' : Entry Message} (h : Revised m m') (h' : Revised m' m'') :
    Revised m m'' := by
  obtain ⟨hid, hle, hsame⟩ := h
  obtain ⟨hid', hle', hsame'⟩ := h'
  refine ⟨hid'.trans hid, hle.trans hle', fun hrevision => ?_⟩
  -- equal revisions at both ends leave no room for a change in between
  obtain ⟨hcontent, hcomplete⟩ := hsame (by omega)
  obtain ⟨hcontent', hcomplete'⟩ := hsame' (by omega)
  exact ⟨hcontent'.trans hcontent, hcomplete'.trans hcomplete⟩

/-- What receiving does to messages and deliveries. -/
structure Advanced (t u : Tables) : Prop where
  kept : ∀ d ∈ t.deliveries, d ∈ u.deliveries
  added : ∀ d ∈ u.deliveries, d ∈ t.deliveries ∨ ∃ m, Queued t u d m
  messages : ∀ m ∈ t.messages, ∃ m' ∈ u.messages, Revised m m'

theorem Advanced.congr (hdeliveries : u.deliveries = t.deliveries)
    (hmessages : u.messages = t.messages) : Advanced t u where
  kept d hd := by rwa [hdeliveries]
  added d hd := .inl (by rwa [hdeliveries] at hd)
  messages m hm := ⟨m, by rwa [hmessages], .refl m⟩

/-- The other tables do not matter. -/
theorem Advanced.of_eq {t' u' : Tables} (h : Advanced t u) (hdeliveries : t'.deliveries = t.deliveries)
    (hmessages : t'.messages = t.messages) (hdeliveries' : u'.deliveries = u.deliveries)
    (hmessages' : u'.messages = u.messages) : Advanced t' u' where
  kept := by rw [hdeliveries, hdeliveries']; exact h.kept
  added d hd := by
    rw [hdeliveries'] at hd
    rw [hdeliveries]
    refine (h.added d hd).imp_right ?_
    rintro ⟨m, hm⟩
    exact ⟨m, hdeliveries ▸ hm.fresh, hm.pending, hmessages' ▸ hm.mem, hm.message, hm.revision⟩
  messages := by rw [hmessages, hmessages']; exact h.messages

section Published

variable {g : Entry Group} {now : ℤ} {forwarding : Bool}

/-- A delivery that publishing a group adds is for the message of the group. -/
theorem mem_published_deliveries (hc : Constraints t) {d : Entry Delivery}
    (hd : d ∈ (t.published g now forwarding).deliveries) :
    d ∈ t.deliveries ∨
      ∃ m, Queued t (t.published g now forwarding) d m ∧ m.row.groupId = some g.id := by
  unfold published at hd ⊢
  -- only a change or a new message queues a delivery
  cases hm : t.messageOfGroup g.id with
  | some m =>
    obtain ⟨hmem, hgroup⟩ := (messageOfGroup_eq_some hc).mp hm
    simp only [hm] at hd ⊢
    split at hd
    · exact .inl hd
    · rename_i hchanged
      rw [if_neg hchanged]
      rcases mem_queued hd with hd | rfl
      · exact .inl hd
      · refine .inr ⟨_, ⟨nextId_notMem_ids _, rfl, mem_updateWhere.mpr
          (.inr ⟨m, hmem, decide_eq_true rfl, rfl⟩), rfl, rfl⟩, hgroup⟩
  | none =>
    simp only [hm] at hd ⊢
    rcases mem_queued hd with hd | rfl
    · exact .inl hd
    · exact .inr ⟨_, ⟨nextId_notMem_ids _, rfl, mem_insert.mpr (.inr rfl), rfl, rfl⟩, rfl⟩

theorem mem_published_of_mem {d : Entry Delivery} (hd : d ∈ t.deliveries) :
    d ∈ (t.published g now forwarding).deliveries := by
  unfold published
  split
  · split
    · exact hd
    · exact mem_queued_of_mem hd
  · exact mem_queued_of_mem hd

/-- Publishing changes a message only together with its revision. -/
theorem published_revised {m : Entry Message} (hm : m ∈ t.messages) :
    ∃ m' ∈ (t.published g now forwarding).messages, Revised m m' := by
  unfold published
  split
  · rename_i x hx
    split
    · exact ⟨m, hm, .refl m⟩
    · -- the revision of the group's own message goes up by one
      by_cases hid : m.id = x.id
      · refine ⟨_, mem_updateWhere.mpr (.inr ⟨m, hm, decide_eq_true hid, rfl⟩), rfl, ?_, ?_⟩
        · have hsame := eq_of_id_eq hm (mem_of_find? hx).1 hid
          rw [hsame]
          exact Nat.le_succ _
        · intro hrevision
          rw [eq_of_id_eq hm (mem_of_find? hx).1 hid] at hrevision
          exact absurd hrevision (Nat.succ_ne_self _)
      · exact ⟨m, mem_updateWhere.mpr (.inl ⟨hm, decide_eq_false hid⟩), .refl m⟩
  · exact ⟨m, mem_insert.mpr (.inl hm), .refl m⟩

theorem advanced_published (hc : Constraints t) : Advanced t (t.published g now forwarding) where
  kept _ hd := mem_published_of_mem hd
  added _ hd := (mem_published_deliveries hc hd).imp_right fun ⟨m, hm, _⟩ => ⟨m, hm⟩
  messages _ hm := published_revised hm

end Published

variable {now : ℤ} {forwarding : Bool}

/-- Messages of other groups are left alone. -/
theorem PublishedAll.mem_messages {ids : List ℕ} (h : PublishedAll now forwarding ids t u)
    (hc : Constraints t) {m : Entry Message} (hother : ∀ n ∈ ids, m.row.groupId ≠ some n) :
    m ∈ u.messages ↔ m ∈ t.messages := by
  induction h with
  | nil => rfl
  | cons g hg hvalid _ ih =>
    rw [ih hvalid fun n hn => hother n (List.mem_cons_of_mem _ hn)]
    exact mem_published_of_ne hc (hother g.id List.mem_cons_self)

/-- Every group has one message, so several publications advance the tables like one. -/
theorem PublishedAll.advanced {ids : List ℕ} (h : PublishedAll now forwarding ids t u)
    (hc : Constraints t) (hids : ids.Nodup) : Advanced t u := by
  induction h with
  | nil => exact .congr rfl rfl
  | @cons rest t u g hg hvalid hrest ih =>
    obtain ⟨hnotMem, hnodup⟩ := List.nodup_cons.mp hids
    have hafter := ih hvalid hnodup
    refine ⟨fun d hd => hafter.kept d (mem_published_of_mem hd), fun d hd => ?_, fun m hm => ?_⟩
    · rcases hafter.added d hd with hd | ⟨m, hm⟩
      · refine (mem_published_deliveries hc hd).imp_right ?_
        rintro ⟨m, hm, hgroup⟩
        -- no other group changes the message again
        refine ⟨m, hm.fresh, hm.pending, (hrest.mem_messages hvalid ?_).mpr hm.mem, hm.message,
          hm.revision⟩
        rintro n hn heq
        rw [hgroup] at heq
        exact hnotMem (Option.some.inj heq ▸ hn)
      · refine .inr ⟨m, fun hmem => hm.fresh ?_, hm.pending, hm.mem, hm.message, hm.revision⟩
        obtain ⟨x, hx, hid⟩ := mem_ids.mp hmem
        exact mem_ids.mpr ⟨x, mem_published_of_mem hx, hid⟩
    · obtain ⟨m', hm', hrevised⟩ := @published_revised t g now forwarding m hm
      obtain ⟨m'', hm'', hrevised'⟩ := hafter.messages m' hm'
      exact ⟨m'', hm'', hrevised.trans hrevised'⟩

theorem nodup_expiredGroups {w : Windows} {modemId : ModemId} (scan : ScanOrder) :
    (scan.order (t.expiredGroups w modemId now)).Nodup := by
  refine (scan.perm _).nodup_iff.mpr ?_
  exact t.groups.nodup_ids.sublist (List.filter_sublist.map _)

/-- A segment queues a delivery if it is a message, or completes one. -/
theorem Imported.advanced {w : Windows} {segment : SmsSegment} {r : ImportResult}
    (h : Imported w segment now forwarding t r u) : Advanced t u := by
  cases h with
  | duplicate source hsource hdup => exact .congr rfl rfl
  | single hnew hone hdup =>
    refine ⟨fun d hd => mem_queued_of_mem hd, fun d hd => ?_, fun m hm => ?_⟩
    · rcases mem_queued hd with hd | rfl
      · exact .inl hd
      · exact .inr ⟨_, nextId_notMem_ids _, rfl, mem_insert.mpr (.inr rfl), rfl, rfl⟩
    · exact ⟨m, mem_insert.mpr (.inl hm), .refl m⟩
  | part hnew hmany hdup hlow hhigh hvalid hstored =>
    cases hstored with
    | waiting hgroup hcount =>
      exact .congr hgroup.other_tables.2.2.2 hgroup.other_tables.2.2.1
    | published hgroup hvalid' hcount g hg hid =>
      -- up to the publication only groups, segments and sources are written
      obtain ⟨-, -, hmessages, hdeliveries⟩ := hgroup.other_tables
      have hpublished := @advanced_published _ g now forwarding hvalid'
      exact hpublished.of_eq hdeliveries.symm hmessages.symm rfl rfl

/-! ## All operations -/

/-- The operation is a success report that finishes the delivery. -/
def Op.Finishes (op : Op) (d : Entry Delivery) : Prop :=
  ∃ worker error now, op = .complete worker d.id true error now ∧ d.row.state = .claimed

/-- The same delivery after an operation: only its state and its times have changed, and it is done
when it was done before or has been finished. -/
structure Carried (op : Op) (d d' : Entry Delivery) : Prop where
  id_eq : d'.id = d.id
  message : d'.row.messageId = d.row.messageId
  revision : d'.row.revision = d.row.revision
  done_iff : d'.row.state = .done ↔ d.row.state = .done ∨ op.Finishes d

theorem Carried.refl {op : Op} {d : Entry Delivery} (h : ¬ op.Finishes d) : Carried op d d :=
  ⟨rfl, rfl, rfl, (or_iff_left h).symm⟩

def Op.IsReport : Op → Prop
  | .complete _ _ _ _ _ => True
  | _ => False

theorem Op.not_finishes {op : Op} (h : ¬ op.IsReport) (d : Entry Delivery) : ¬ op.Finishes d := by
  rintro ⟨worker, error, now, rfl, -⟩
  exact h trivial

/-- A delivery after an operation is new, or it was there before. -/
def Traced (op : Op) (t u : Tables) : Prop :=
  ∀ d' ∈ u.deliveries, (d'.row.state = .pending ∧ d'.id ∉ t.deliveries.ids) ∨
    ∃ d ∈ t.deliveries, Carried op d d'

variable {op : Op}

theorem Traced.of_subset (hop : ¬ op.IsReport) (h : ∀ d ∈ u.deliveries, d ∈ t.deliveries) :
    Traced op t u :=
  fun d hd => .inr ⟨d, h d hd, .refl (op.not_finishes hop d)⟩

theorem Advanced.traced (h : Advanced t u) (hop : ¬ op.IsReport) : Traced op t u := by
  intro d hd
  rcases h.added d hd with hd | ⟨m, hm⟩
  · exact .inr ⟨d, hd, .refl (op.not_finishes hop d)⟩
  · exact .inl ⟨hm.pending, hm.fresh⟩

/-- Giving up and handing out a delivery changes its state only. -/
theorem carried_update (hop : ¬ op.IsReport) {p : Entry Delivery → Bool} {f : Delivery → Delivery}
    (hf : ∀ x, (f x).messageId = x.messageId ∧ (f x).revision = x.revision ∧ (f x).state ≠ .done)
    (hp : ∀ d ∈ t.deliveries, p d = true → d.row.state ≠ .done) {d' : Entry Delivery}
    (hd' : d' ∈ t.deliveries.updateWhere p f) : ∃ d ∈ t.deliveries, Carried op d d' := by
  rcases mem_updateWhere.mp hd' with ⟨hd, -⟩ | ⟨x, hx, hpx, rfl⟩
  · exact ⟨d', hd, .refl (op.not_finishes hop d')⟩
  · obtain ⟨hmessage, hrevision, hstate⟩ := hf x.row
    refine ⟨x, hx, rfl, hmessage, hrevision, ?_⟩
    exact iff_of_false hstate (not_or.mpr ⟨hp x hx hpx, op.not_finishes hop x⟩)

/-! ### Claims -/

/-- The claim shows a message as it is. -/
structure Claim.IsOf (c : Claim) (m : Entry Message) : Prop where
  message : c.messageId = m.id
  content : c.content = m.row.content
  complete : c.complete = m.row.complete
  revision : c.revision = m.row.revision

def State.handOut (s : State) (clock : ClaimClock) : Option Claim :=
  (claimDelivery clock s.db).bind (·.1)

section Claim

variable {c : Claim} {clock : ClaimClock} {r : Option Claim}

/-- The delivery a claim picks is due, and the claim shows its message. -/
theorem nextDelivery_eq_some (h : t.nextDelivery now = some c) :
    ∃ d ∈ t.deliveries, d.row.state = .pending ∧ d.row.availableAt ≤ now ∧
      t.claimOf d = some c := by
  obtain ⟨d, hd, hclaim⟩ := List.exists_of_findSome?_eq_some h
  obtain ⟨hd, hp⟩ := mem_select.mp hd
  rw [Bool.and_eq_true, decide_eq_true_eq, decide_eq_true_eq] at hp
  exact ⟨d, hd, hp.1, hp.2, hclaim⟩

theorem claimOf_eq_some {d : Entry Delivery} (h : t.claimOf d = some c) :
    c.deliveryId = d.id ∧ ∃ m ∈ t.messages, m.id = d.row.messageId ∧ c.IsOf m := by
  obtain ⟨m, hm, rfl⟩ := Option.map_eq_some_iff.mp h
  obtain ⟨hmem, hid⟩ := mem_of_find? hm
  exact ⟨rfl, m, hmem, of_decide_eq_true hid, rfl, rfl, rfl, rfl⟩

theorem carried_resetExpired (hop : ¬ op.IsReport) {d' : Entry Delivery}
    (hd' : d' ∈ (t.resetExpired now).deliveries) : ∃ d ∈ t.deliveries, Carried op d d' := by
  refine carried_update hop ?_ ?_ hd'
  · exact fun x => ⟨rfl, rfl, by rintro ⟨⟩⟩
  · intro d _ hexpired hdone
    simp [isExpired, hdone] at hexpired

theorem Carried.trans {d d' d'' : Entry Delivery} (hop : ¬ op.IsReport) (h : Carried op d d')
    (h' : Carried op d' d'') : Carried op d d'' where
  id_eq := h'.id_eq.trans h.id_eq
  message := h'.message.trans h.message
  revision := h'.revision.trans h.revision
  done_iff := by
    rw [h'.done_iff, or_iff_left (op.not_finishes hop d'), h.done_iff]

/-- The delivery a claim hands out was pending, or its claim had expired. -/
theorem Claimed.handed_from (h : Claimed clock t (some c) u) :
    ∃ d ∈ t.deliveries, d.id = c.deliveryId ∧ d.row.state ≠ .done ∧
      ∃ m ∈ t.messages, m.id = d.row.messageId ∧ c.IsOf m := by
  cases h with
  | handed _ hnext =>
    obtain ⟨d', hd', hpending, -, hclaim⟩ := nextDelivery_eq_some hnext
    obtain ⟨hid, m, hm, hmessage, hrest⟩ := claimOf_eq_some hclaim
    obtain ⟨d, hd, hcarried⟩ := carried_resetExpired
      (show ¬ (Op.claim 0 clock).IsReport from id) hd'
    refine ⟨d, hd, (hid.trans hcarried.id_eq).symm, fun hdone => ?_, m, hm,
      hmessage.trans hcarried.message, hrest⟩
    have hdone' := hcarried.done_iff.mpr (.inl hdone)
    rw [hpending] at hdone'
    cases hdone'

theorem State.handOut_eq_some (h : s.handOut clock = some c) :
    ∃ db : Database, claimDelivery clock s.db = some (some c, db) ∧
      Claimed clock s.db.data (some c) db.data := by
  obtain ⟨⟨r, db⟩, heq, rfl⟩ := Option.bind_eq_some_iff.mp h
  exact ⟨db, heq, claimDelivery_eq_some heq⟩

/-- A claim resets deliveries and hands out one, and finishes none. -/
theorem Claimed.traced (h : Claimed clock t r u) (hop : ¬ op.IsReport) : Traced op t u := by
  intro d' hd'
  refine .inr ?_
  cases h with
  | empty hnext => exact carried_resetExpired hop hd'
  | handed c hnext =>
    -- the one that is handed out was waiting, so it is not done
    obtain ⟨x, hx, hpending, -, hclaim⟩ := nextDelivery_eq_some hnext
    have hid := (claimOf_eq_some hclaim).1
    obtain ⟨y, hy, hcarried⟩ : ∃ y ∈ (t.resetExpired clock.reset).deliveries, Carried op y d' := by
      refine carried_update hop ?_ ?_ hd'
      · exact fun x => ⟨rfl, rfl, by rintro ⟨⟩⟩
      · intro d hd hsame hdone
        rw [eq_of_id_eq hd hx ((of_decide_eq_true hsame).trans hid), hpending] at hdone
        cases hdone
    obtain ⟨d, hd, hreset⟩ := carried_resetExpired hop hy
    exact ⟨d, hd, hreset.trans hop hcarried⟩

end Claim

/-! ### Reports -/

section Report

variable {worker deliveryId : ℕ} {success : Bool} {error : Option Text} {now : ℤ}

theorem Tables.finished_row (success : Bool) (error : Option Text) (now : ℤ) (d : Delivery) :
    (Tables.finished success error now d).messageId = d.messageId ∧
      (Tables.finished success error now d).revision = d.revision := by
  unfold finished
  split <;> exact ⟨rfl, rfl⟩

theorem completeDelivery_succeeds {s : Database} (hid : deliveryId ≠ 0) :
    Succeeds (completeDelivery deliveryId success error now) s := by
  rw [completeDelivery, if_neg hid]
  have hrow := finished_row success error now
  refine .exec { s.valid with
    deliveries_revision := s.valid.deliveries_revision.updateWhere fun d _ _ => ?_
    deliveries_message := s.valid.deliveries_message.updateWhere fun d _ _ => ?_ }
  · rw [(hrow d.row).1, (hrow d.row).2]
  · rw [(hrow d.row).1]

theorem State.step_complete (worker : ℕ) (hid : deliveryId ≠ 0) :
    (s.step (.complete worker deliveryId success error now)).db.data =
      s.db.data.finishDelivery deliveryId success error now := by
  obtain ⟨_, db, heq⟩ := @completeDelivery_succeeds deliveryId success error now s.db hid
  rw [← completeDelivery_eq_some heq, ← State.commit_of_eq heq]
  rfl

/-- A report finishes the delivery it names if that one is claimed. -/
theorem traced_finishDelivery : Traced (.complete worker deliveryId success error now) t
    (t.finishDelivery deliveryId success error now) := by
  intro d' hd'
  refine .inr ?_
  rcases mem_updateWhere.mp hd' with ⟨hd, hp⟩ | ⟨x, hx, hp, rfl⟩
  · refine ⟨d', hd, .refl ?_⟩
    rintro ⟨_, _, _, ⟨⟩, hclaimed⟩
    simp [hclaimed] at hp
  · rw [Bool.and_eq_true, decide_eq_true_eq, decide_eq_true_eq] at hp
    obtain ⟨rfl, hclaimed⟩ := hp
    -- a failure sets it back to waiting
    cases success with
    | true =>
      exact ⟨x, hx, rfl, rfl, rfl, iff_of_true rfl (.inr ⟨worker, error, now, rfl, hclaimed⟩)⟩
    | false =>
      refine ⟨x, hx, rfl, rfl, rfl, iff_of_false (by rintro ⟨⟩) ?_⟩
      rintro (hdone | ⟨_, _, _, ⟨⟩, -⟩)
      rw [hclaimed] at hdone
      cases hdone

end Report

/-- No operation but a report finishes a delivery. -/
theorem Effect.traced {w : Windows} (h : Effect w t op u) (hc : Constraints t)
    (hop : ¬ op.IsReport) : Traced op t u := by
  cases h with
  | unchanged => exact .of_subset hop fun _ hd => hd
  | imported h => exact h.advanced.traced hop
  | published h => exact (h.advanced hc (nodup_expiredGroups _)).traced hop
  | scanned => exact .of_subset hop fun _ hd => hd
  -- what is deleted needs no trace
  | pruned =>
    exact .of_subset hop fun _ hd =>
      (mem_deleteWhere.mp (mem_deleteWhere.mp hd).1).1
  | sourceDeleted => exact .of_subset hop fun _ hd => hd
  | messageDeleted modemId messageId =>
    refine .of_subset hop fun d hd => ?_
    unfold withoutMessage at hd
    split at hd <;> exact (mem_deleteWhere.mp hd).1
  | modemDeleted => exact .of_subset hop fun _ hd => (mem_deleteWhere.mp hd).1
  | syncRecorded => exact .of_subset hop fun _ hd => hd
  | eventRecorded => exact .of_subset hop fun _ hd => hd
  | messageAdded => exact .of_subset hop fun _ hd => hd
  | messageRead => exact .of_subset hop fun _ hd => hd
  | claimed worker h => exact h.traced hop
  | completed => exact absurd trivial hop

/-- **Every operation**: a delivery afterwards is new and pending, or it was there before with the
same message and revision. -/
theorem delivery_step (s : State) (op : Op) : Traced op s.db.data (s.step op).db.data := by
  by_cases hop : op.IsReport
  · obtain ⟨worker, deliveryId, success, error, now, rfl⟩ : ∃ worker deliveryId success error now,
        op = .complete worker deliveryId success error now := by
      cases op <;> first | exact ⟨_, _, _, _, _, rfl⟩ | exact absurd hop id
    by_cases hid : deliveryId = 0
    · -- no row has key zero: the report is refused
      subst hid
      refine fun d hd => .inr ⟨d, hd, .refl ?_⟩
      rintro ⟨_, _, _, hop, -⟩
      have hpos : 0 < d.id := s.db.data.deliveries.positive d hd
      simp only [Op.complete.injEq] at hop
      omega
    · rw [State.step_complete worker hid]
      exact traced_finishDelivery
  · exact (s.step_effect op).traced s.db.valid hop

end QModem.Smsd
