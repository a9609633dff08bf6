import QModem.Smsd.Deliveries

/-!
# Who Finishes a Delivery?

A worker reports the outcome under the key of the delivery, and `delivery_complete_method` updates
the row with that key if it is claimed at that time, by whomever.  The key may belong to another
delivery by then, because the message was deleted and the key reused; and the claim may have
expired, so that the report finds no claimed row and is answered with success all the same.

The history of a run is kept in two lists: the deliveries that workers have been given, and those
that a worker who was given them has reported as done.  An entry goes when its row is deleted, so
that an entry always speaks of the row it was made for.

## Main results

- `forwarding_iff`: a run keeps to the protocol exactly when every success report is for a delivery
  that is still in the hands of workers
- `lateReports_not_sound`: two runs in which a late report goes wrong
-/

namespace QModem.Smsd

open Lib Transaction

/-! ## Histories -/

/-- A worker has been given a delivery for a message. -/
structure Assignment where
  worker : ℕ
  deliveryId : ℕ
  messageId : ℕ
  deriving DecidableEq

namespace Assignment

def isPresent (t : Tables) (a : Assignment) : Bool :=
  t.deliveries.rows.any fun d => d.id = a.deliveryId && d.row.messageId = a.messageId

/-- The operation is a success report of the worker, answered with success. -/
def isReported (s : State) (op : Op) (a : Assignment) : Bool :=
  match op with
  | .complete worker deliveryId true error now =>
    worker = a.worker && deliveryId = a.deliveryId &&
      (completeDelivery deliveryId true error now s.db).isSome
  | _ => false

end Assignment

/-- What a claim gives to its worker. -/
def handover (s : State) : Op → Option Assignment
  | .claim worker clock => (s.handOut clock).map fun c => ⟨worker, c.deliveryId, c.messageId⟩
  | _ => none

/-- The daemon with the history of its deliveries. -/
structure Tracked where
  state : State
  /-- What workers have been given. -/
  given : List Assignment
  /-- What workers have reported as done, out of what they had been given. -/
  reported : List Assignment

namespace Tracked

def initial : Tracked where
  state := .initial
  given := []
  reported := []

def step (k : Tracked) (op : Op) : Tracked where
  state := k.state.step op
  given := (k.given ++ (handover k.state op).toList).filter
    (Assignment.isPresent (k.state.step op).db.data)
  reported := (k.reported ++ k.given.filter (Assignment.isReported k.state op)).filter
    (Assignment.isPresent (k.state.step op).db.data)

/-- A delivery is done exactly when a worker that was given it for its message has reported so, and
then it is not handed out any more, at whatever time. -/
structure Sound (k : Tracked) : Prop where
  done_reported : ∀ d ∈ k.state.db.data.deliveries, d.row.state = .done →
    ∃ a ∈ k.reported, a.deliveryId = d.id ∧ a.messageId = d.row.messageId
  reported_done : ∀ a ∈ k.reported, ∀ d ∈ k.state.db.data.deliveries,
    d.id = a.deliveryId → d.row.state = .done
  not_handed : ∀ clock c, k.state.handOut clock = some c →
    ∀ a ∈ k.reported, a.deliveryId ≠ c.deliveryId

/-- A success report for a claimed row comes from a worker that was given the row, and a worker that
was given a row does not report it while it waits to be handed out again. -/
def Careful (k : Tracked) (op : Op) : Prop :=
  ∀ worker deliveryId error now, op = .complete worker deliveryId true error now →
    ∀ d ∈ k.state.db.data.deliveries, d.id = deliveryId →
      (d.row.state = .claimed → ⟨worker, d.id, d.row.messageId⟩ ∈ k.given) ∧
        (⟨worker, d.id, d.row.messageId⟩ ∈ k.given → d.row.state ≠ .pending)

/-- The rows of all entries are there. -/
def Present (k : Tracked) : Prop :=
  ∀ a, a ∈ k.given ∨ a ∈ k.reported →
    ∃ d ∈ k.state.db.data.deliveries, d.id = a.deliveryId ∧ d.row.messageId = a.messageId

variable {k : Tracked} {op : Op}

variable {a : Assignment}

theorem isPresent_iff {t : Tables} :
    a.isPresent t = true ↔
      ∃ d ∈ t.deliveries, d.id = a.deliveryId ∧ d.row.messageId = a.messageId := by
  simp [Assignment.isPresent, Table.mem_rows]

theorem Present.step (k : Tracked) (op : Op) : Present (k.step op) := by
  rintro a (ha | ha) <;> exact isPresent_iff.mp (List.mem_filter.mp ha).2

theorem mem_reported_step :
    a ∈ (k.step op).reported ↔
      (a ∈ k.reported ∨ (a ∈ k.given ∧ a.isReported k.state op = true)) ∧
        ∃ d ∈ (k.step op).state.db.data.deliveries,
          d.id = a.deliveryId ∧ d.row.messageId = a.messageId := by
  rw [step, List.mem_filter, List.mem_append, List.mem_filter, isPresent_iff]

/-! ## Reports -/

/-- A success report for a row that exists is answered with success. -/
theorem isReported_iff (hid : a.deliveryId ≠ 0) :
    a.isReported k.state op = true ↔
      ∃ error now, op = .complete a.worker a.deliveryId true error now := by
  constructor
  · intro h
    unfold Assignment.isReported at h
    split at h
    · simp only [Bool.and_eq_true, decide_eq_true_eq] at h
      obtain ⟨⟨rfl, rfl⟩, -⟩ := h
      exact ⟨_, _, rfl⟩
    · cases h
  · rintro ⟨error, now, rfl⟩
    obtain ⟨r, db, heq⟩ := @completeDelivery_succeeds a.deliveryId true error now k.state.db hid
    simp [Assignment.isReported, heq]

theorem Present.deliveryId_ne_zero (hk : Present k) (ha : a ∈ k.given ∨ a ∈ k.reported) :
    a.deliveryId ≠ 0 := by
  obtain ⟨d, hd, hid, -⟩ := hk a ha
  have hpos := k.state.db.data.deliveries.positive d hd
  omega

/-- A delivery that is done is not handed out. -/
theorem not_handed_of_done
    (hdone : ∀ a ∈ k.reported, ∀ d ∈ k.state.db.data.deliveries,
      d.id = a.deliveryId → d.row.state = .done) :
    ∀ clock c, k.state.handOut clock = some c → ∀ a ∈ k.reported, a.deliveryId ≠ c.deliveryId := by
  intro clock c hclaim a ha hsame
  obtain ⟨db, -, hclaimed⟩ := State.handOut_eq_some hclaim
  obtain ⟨d, hd, hid, hopen, -⟩ := hclaimed.handed_from
  exact hopen (hdone a ha d hd (hid.trans hsame.symm))

/-- The row of an entry afterwards is the row it had before. -/
theorem Present.carried (hk : Present k) (ha : a ∈ k.given ∨ a ∈ k.reported) {d' : Entry Delivery}
    (hd' : d' ∈ (k.step op).state.db.data.deliveries) (hid : d'.id = a.deliveryId) :
    ∃ d ∈ k.state.db.data.deliveries, d.id = a.deliveryId ∧ d.row.messageId = a.messageId ∧
      Carried op d d' := by
  obtain ⟨x, hx, hxid, hxmessage⟩ := hk a ha
  rcases delivery_step k.state op d' hd' with ⟨-, hfresh⟩ | ⟨d, hd, hcarried⟩
  · exact absurd (Table.mem_ids.mpr ⟨x, hx, hxid.trans hid.symm⟩) hfresh
  · obtain rfl := Table.eq_of_id_eq hd hx ((hcarried.id_eq.symm.trans hid).trans hxid.symm)
    exact ⟨d, hd, hxid, hxmessage, hcarried⟩

/-! ## One step -/

/-- An operation keeps the reports and the rows in step, if late and stray reports are left out. -/
theorem Sound.step (h : Sound k) (hk : Present k) (hcareful : Careful k op) : Sound (k.step op) := by
  have hreported : ∀ a ∈ (k.step op).reported, ∀ d ∈ (k.step op).state.db.data.deliveries,
      d.id = a.deliveryId → d.row.state = .done := by
    intro a ha d' hd' hid
    obtain ⟨hold | ⟨hgiven, hreport⟩, -⟩ := mem_reported_step.mp ha
    · obtain ⟨d, hd, hdid, -, hcarried⟩ := hk.carried (.inr hold) hd' hid
      exact hcarried.done_iff.mpr (.inl (h.reported_done a hold d hd hdid))
    · obtain ⟨error, now, hop⟩ := (isReported_iff (hk.deliveryId_ne_zero (.inl hgiven))).mp hreport
      obtain ⟨d, hd, hdid, hmessage, hcarried⟩ := hk.carried (.inl hgiven) hd' hid
      -- the row is claimed and becomes done, or it has been done before
      have hassigned : (⟨a.worker, d.id, d.row.messageId⟩ : Assignment) ∈ k.given := by
        rw [hdid, hmessage]
        exact hgiven
      have hstate := (hcareful _ _ error now hop d hd hdid).2 hassigned
      refine hcarried.done_iff.mpr ?_
      cases hd : d.row.state with
      | pending => exact absurd hd hstate
      | claimed => exact .inr ⟨a.worker, error, now, by rw [hop, hdid], hd⟩
      | done => exact .inl rfl
  refine ⟨fun d' hd' hdone => ?_, hreported, not_handed_of_done hreported⟩
  rcases delivery_step k.state op d' hd' with ⟨hpending, -⟩ | ⟨d, hd, hcarried⟩
  · rw [hpending] at hdone
    cases hdone
  · rcases hcarried.done_iff.mp hdone with hold | ⟨worker, error, now, hop, hclaimed⟩
    · obtain ⟨a, ha, hid, hmessage⟩ := h.done_reported d hd hold
      refine ⟨a, mem_reported_step.mpr ⟨.inl ha, d', hd', ?_, ?_⟩, ?_, ?_⟩
      · rw [hcarried.id_eq, hid]
      · rw [hcarried.message, hmessage]
      · rw [hcarried.id_eq, hid]
      · rw [hcarried.message, hmessage]
    · have hgiven := (hcareful worker d.id error now hop d hd rfl).1 hclaimed
      have hpos : d.id ≠ 0 := (k.state.db.data.deliveries.positive d hd).ne'
      refine ⟨⟨worker, d.id, d.row.messageId⟩, mem_reported_step.mpr
        ⟨.inr ⟨hgiven, (isReported_iff hpos).mpr ⟨error, now, hop⟩⟩, d', hd', hcarried.id_eq,
          hcarried.message⟩, hcarried.id_eq.symm, hcarried.message.symm⟩

/-- A step that keeps to the protocol was careful. -/
theorem Sound.careful (h : Sound k) (hk : Present k) (hafter : Sound (k.step op)) :
    Careful k op := by
  rintro worker deliveryId error now rfl d hd rfl
  have hpos : d.id ≠ 0 := (k.state.db.data.deliveries.positive d hd).ne'
  have hdata : (k.step (.complete worker d.id true error now)).state.db.data =
      k.state.db.data.finishDelivery d.id true error now := State.step_complete worker hpos
  constructor
  · intro hclaimed
    -- the row becomes done, so somebody who was given it has reported it: in this step
    have hmem : (⟨d.id, Tables.finished true error now d.row⟩ : Entry Delivery) ∈
        (k.step (.complete worker d.id true error now)).state.db.data.deliveries := by
      rw [hdata]
      exact Table.mem_updateWhere.mpr (.inr ⟨d, hd, by simp [hclaimed], rfl⟩)
    obtain ⟨a, ha, hid, hmessage⟩ := hafter.done_reported _ hmem rfl
    obtain ⟨hold | ⟨hgiven, hreport⟩, -⟩ := mem_reported_step.mp ha
    · have hdone := h.reported_done a hold d hd hid.symm
      rw [hclaimed] at hdone
      cases hdone
    · obtain ⟨error', now', hop⟩ :=
        (isReported_iff (hk.deliveryId_ne_zero (.inl hgiven))).mp hreport
      obtain ⟨rfl, -⟩ := Op.complete.inj hop
      rw [← hid, show d.row.messageId = a.messageId from hmessage.symm]
      exact hgiven
  · intro hgiven hpending
    -- nothing is updated, but the report counts
    have hmem : d ∈ (k.step (.complete worker d.id true error now)).state.db.data.deliveries := by
      rw [hdata]
      exact Table.mem_updateWhere.mpr (.inl ⟨hd, by simp [hpending]⟩)
    have hreported : (⟨worker, d.id, d.row.messageId⟩ : Assignment) ∈
        (k.step (.complete worker d.id true error now)).reported :=
      mem_reported_step.mpr ⟨.inr ⟨hgiven, (isReported_iff hpos).mpr ⟨error, now, rfl⟩⟩, d, hmem,
        rfl, rfl⟩
    have hdone := hafter.reported_done _ hreported d hmem rfl
    rw [hpending] at hdone
    cases hdone

end Tracked

/-! ## Runs -/

/-- **Forwarding**: a run keeps to the protocol all along exactly when all its success reports are
careful. -/
theorem forwarding_iff (ops : List Op) :
    Throughout Tracked.step Tracked.Sound Tracked.initial ops ↔
      Along Tracked.step Tracked.Careful Tracked.initial ops := by
  refine throughout_iff_along Tracked.Present ?_ (fun k op _ _ => .step k op) ?_
    fun k op _ hk h => ⟨h.careful hk, h.step hk⟩
  · rintro a (ha | ha) <;> cases ha
  · refine ⟨fun d hd => absurd hd Table.notMem_empty, fun a ha => ?_, fun _ _ _ a ha => ?_⟩ <;>
      cases ha

/-! ## Late reports -/

/-- A message of one part, with a number that tells it from others. -/
def shortMessage (n : ℕ) : SmsSegment where
  modemId := ⟨[0x61], validId_a⟩
  storage := [0x53, 0x4d]
  sourceIndex := n
  pdu := [0x30]
  sender := [0x31, 0x32]
  timestamp := n
  content := [0x41]
  reference := 0
  totalParts := 1
  partNumber := 1

def claimAt (worker : ℕ) (now : ℤ) : Op := .claim worker ⟨now, now, now⟩

/-- Workers 1 and 2 claim two deliveries and are too slow.  Worker 3 gets the first one, and then
worker 2 reports the second one, which waits to be handed out again. -/
def expiredRun : List Op :=
  [.importSegment (shortMessage 1) 1000 true, .importSegment (shortMessage 2) 1000 true,
    claimAt 1 1000, claimAt 2 1000, claimAt 3 1400, .complete 2 2 true none 1410]

/-- Worker 1 claims a delivery, whose message is deleted.  The next message gets the same keys,
worker 2 claims its delivery, and then worker 1 reports the old one. -/
def reusedRun : List Op :=
  [.importSegment (shortMessage 1) 1000 true, claimAt 1 1000,
    .deleteMessage (shortMessage 1).modemId 1, .importSegment (shortMessage 2) 1010 true,
    claimAt 2 1020, .complete 1 1 true none 1030]

/-- In the first run a delivery is handed out again after its success report, in the second one a
delivery becomes done through a worker that was never given it. -/
theorem lateReports_not_sound :
    ¬ Throughout Tracked.step Tracked.Sound Tracked.initial expiredRun ∧
      ¬ Throughout Tracked.step Tracked.Sound Tracked.initial reusedRun := by
  constructor
  · intro h
    have hhanded : (((run Tracked.step Tracked.initial expiredRun).state.handOut
        ⟨1420, 1420, 1420⟩).any fun c => (run Tracked.step Tracked.initial expiredRun).reported.any
          fun a => a.deliveryId = c.deliveryId) = true := by decide +kernel
    -- the delivery is handed out again although it was reported
    obtain ⟨c, hclaim, hc⟩ := (Option.any_eq_true _ _).mp hhanded
    obtain ⟨a, ha, hid⟩ := List.any_eq_true.mp hc
    exact h.last.not_handed _ c hclaim a ha (of_decide_eq_true hid)
  · intro h
    -- the row is done although nobody who was given it has said so
    have hdone : ∃ d ∈ (run Tracked.step Tracked.initial reusedRun).state.db.data.deliveries.rows,
        d.row.state = .done := by decide +kernel
    have hnone : (run Tracked.step Tracked.initial reusedRun).reported = [] := by decide +kernel
    obtain ⟨d, hd, hstate⟩ := hdone
    obtain ⟨a, ha, -⟩ := h.last.done_reported d hd hstate
    cases ha

end QModem.Smsd
