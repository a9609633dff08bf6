import QModem.Scan.Orderly

/-!
# The Last Request Wins

A request for a section is meant to replace the earlier ones: it gets a new generation, and events
of older generations are dropped when a worker comes to them.  But a request whose key is in the
queue (or, other than for `add`, with a worker) is answered as a duplicate before the generation is
looked at, and the event it is taken to repeat may be one that is going to be dropped.

## Main results

- `lastRequest_iff`: the last request wins, and every duplicate is one, exactly when every request
  with a known key finds the event with that key current
- `staleDuplicate_not_won`: an `add` that is lost between its duplicate and a `remove`
-/

namespace QModem.Scan

open Lib List Function State Scan.Action

variable {workers : ℕ}

/-! ## Histories -/

/-- A request that was answered, with its slot resolved. -/
structure Made where
  action : Action
  answer : Answer
  deriving DecidableEq

/-- The scheduler with the requests made to it, the latest first. -/
structure Tracked (workers : ℕ) where
  state : State workers
  made : List Made

/-- The latest action on a section. -/
def lastFor (actions : List Action) (x : Text) : Option Action :=
  actions.find? (·.resource = x)

/-- The number of requests for a section that were queued. -/
def queuedFor (made : List Made) (x : Text) : ℕ :=
  made.countP fun m => m.action.resource = x && m.answer = .queued

namespace Tracked

def initial : Tracked workers where
  state := .initial
  made := []

def step (config : Config) (t : Tracked workers) (step : Step workers) : Tracked workers where
  state := t.state.step config step
  made :=
    match step with
    | .request action delay association now =>
      match action.resolve association with
      | none => t.made
      | some resolved =>
        ⟨resolved.effect, (t.state.enqueueEventEx none action delay 0 association now).2⟩ :: t.made
    | _ => t.made

/-- When the queue is empty and no worker is busy, the last thing done to a section is what the last
request for it asked for. -/
def Won (t : Tracked workers) : Prop :=
  t.state.queue = [] → (∀ worker, t.state.jobs worker = none) →
    ∀ x a, lastFor (t.made.map (·.action)) x = some a → lastFor t.state.effects x = some a

/-- The event is that of the last request that was queued for its section, and every request for the
section since then was for the same and answered as a duplicate. -/
def Unsuperseded (made : List Made) (e : Event) : Prop :=
  ∃ newer older, made = newer ++ ⟨e.action.effect, .queued⟩ :: older ∧
    e.generation = queuedFor older e.resource + 1 ∧
    ∀ m ∈ newer, m.action.resource = e.resource → m = ⟨e.action.effect, .deduplicated⟩

/-- A request that is answered as a duplicate leaves an event for the same, in the queue or with a
worker, that no request has superseded. -/
def Answered (config : Config) (t : Tracked workers) (step : Step workers) : Prop :=
  ∀ action delay association now resolved, step = .request action delay association now →
    action.resolve association = some resolved →
    (t.state.enqueueEventEx none action delay 0 association now).2 = .deduplicated →
    ∃ e, (t.step config step).state.Live e ∧ e.action.effect = resolved.effect ∧
      Unsuperseded (t.step config step).made e

/-- An event that has the key of a request, in the queue or with a worker, has the generation of its
section.  For an `add` only the queue counts. -/
def Careful (t : Tracked workers) (step : Step workers) : Prop :=
  ∀ action delay association now resolved, step = .request action delay association now →
    action.resolve association = some resolved →
    ∀ e, (e ∈ t.state.queue ∨ resolved.isAdd = false ∧ Running t.state.jobs e) →
      e.key = resolved.key → t.state.isCurrent e = true

end Tracked

/-! ## Requests and events -/

@[simp] theorem lastFor_cons_self {actions : List Action} {a : Action} :
    lastFor (a :: actions) a.resource = some a := by
  simp [lastFor]

theorem lastFor_cons_of_ne {actions : List Action} {a : Action} {x : Text} (h : a.resource ≠ x) :
    lastFor (a :: actions) x = lastFor actions x := by
  simp [lastFor, h]

theorem queuedFor_cons_queued {made : List Made} (a : Action) (x : Text) :
    queuedFor (⟨a, .queued⟩ :: made) x = queuedFor made x + if a.resource = x then 1 else 0 := by
  simp [queuedFor, countP_cons]

@[simp] theorem queuedFor_cons_deduplicated {made : List Made} (a : Action) (x : Text) :
    queuedFor (⟨a, .deduplicated⟩ :: made) x = queuedFor made x := by
  simp [queuedFor]

namespace Tracked.Unsuperseded

variable {made : List Made} {e : Event}

theorem new (h : e.generation = queuedFor made e.resource + 1) :
    Unsuperseded (⟨e.action.effect, .queued⟩ :: made) e :=
  ⟨[], made, rfl, h, by simp⟩

variable (h : Unsuperseded made e)

include h

theorem cons {m : Made}
    (hm : m.action.resource = e.resource → m = ⟨e.action.effect, .deduplicated⟩) :
    Unsuperseded (m :: made) e := by
  obtain ⟨newer, older, rfl, hgeneration, hnewer⟩ := h
  exact ⟨m :: newer, older, rfl, hgeneration, forall_mem_cons.mpr ⟨hm, hnewer⟩⟩

/-- The generation of an unsuperseded event is the number of requests queued for its section. -/
theorem generation_eq : e.generation = queuedFor made e.resource := by
  obtain ⟨newer, older, rfl, hgeneration, hnewer⟩ := h
  have hnone : queuedFor newer e.resource = 0 := by
    refine countP_eq_zero.mpr fun m hm => ?_
    by_cases hr : m.action.resource = e.resource
    · simp [hnewer m hm hr]
    · simp [hr]
  have hself : e.action.effect.resource = e.resource := resource_effect _
  rw [queuedFor, countP_append, ← queuedFor, ← queuedFor, hnone, queuedFor_cons_queued,
    if_pos hself, hgeneration, Nat.zero_add]

/-- An unsuperseded event does what the last request for its section asked for. -/
theorem lastFor_eq : lastFor (made.map (·.action)) e.resource = some e.action.effect := by
  obtain ⟨newer, older, rfl, -, hnewer⟩ := h
  have hself : e.action.effect.resource = e.resource := resource_effect _
  induction newer with
  | nil => simp only [nil_append, map_cons, ← hself, lastFor_cons_self]
  | cons m newer ih =>
    obtain ⟨hm, hnewer⟩ := forall_mem_cons.mp hnewer
    by_cases hr : m.action.resource = e.resource
    · simp only [cons_append, map_cons, hm hr, ← hself, lastFor_cons_self]
    · simp only [cons_append, map_cons, lastFor_cons_of_ne hr]
      exact ih hnewer

/-- The generation does not change when an event is queued again. -/
theorem retry (notBefore : ℤ) (attempts : ℕ) :
    Unsuperseded made ⟨e.action, notBefore, attempts, e.generation⟩ := h

end Tracked.Unsuperseded

/-! ## Pending and settled sections -/

namespace State

variable (s : State workers) {x : Text}

/-- A current event for the section is still to be processed. -/
def Pending (x : Text) : Prop :=
  (∃ e ∈ s.queue, e.resource = x ∧ s.isCurrent e = true) ∨
    ∃ w e phase, s.jobs w = some ⟨e, phase⟩ ∧ phase ≠ .spent ∧ e.resource = x ∧ s.isCurrent e = true

/-- The action was the last one on its section, and no worker is processing an older event. -/
def Settled (x : Text) (a : Action) : Prop :=
  lastFor s.effects x = some a ∧
    ∀ w e, s.jobs w = some ⟨e, .valid⟩ → e.resource = x → s.isCurrent e = true

variable {s}

theorem isCurrent_iff {e : Event} : s.isCurrent e = true ↔ e.generation = s.generation e.resource :=
  decide_eq_true_iff

@[simp] theorem isCurrent_withoutPendingAdds (action : Action) (e : Event) :
    (s.withoutPendingAdds action).isCurrent e = s.isCurrent e := by
  simp [isCurrent]

section

variable {a : Action} {worker : Fin workers} {e : Event} {phase phase' : Phase}

/-- A worker that goes on leaves the sections pending, unless it is through with a current event. -/
theorem Pending.setPhase (h : s.Pending x) (hjob : s.jobs worker = some ⟨e, phase⟩)
    (hphase : e.resource = x → s.isCurrent e = true → phase' ≠ .spent) :
    (s.setPhase worker e phase').Pending x := by
  rcases h with hqueue | ⟨w, e', p, hj, hp, hr, hcurrent⟩
  · exact .inl hqueue
  · refine .inr ?_
    by_cases hw : w = worker
    · subst hw
      cases hjob.symm.trans hj
      exact ⟨w, e, phase', update_self .., hphase hr hcurrent, hr, hcurrent⟩
    · exact ⟨w, e', p, update_job_iff.mpr (.inr ⟨hw, hj⟩), hp, hr, hcurrent⟩

theorem Settled.setPhase (h : s.Settled x a) (hphase : phase' = .valid → s.isCurrent e = true) :
    (s.setPhase worker e phase').Settled x a := by
  refine ⟨h.1, fun w e' hj hr => ?_⟩
  obtain ⟨-, heq⟩ | ⟨-, hj⟩ := update_job_iff.mp hj
  · cases heq
    exact hphase rfl
  · exact h.2 w e' hj hr

end

/-- Only `add`s for the section of the `disable` leave the queue. -/
theorem mem_withoutPendingAdds {action : Action} {e : Event} (he : e ∈ s.queue)
    (h : e.resource = action.resource → e.action.isAdd = true → action.isAdd = true) :
    e ∈ (s.withoutPendingAdds action).queue := by
  cases action with
  | disable slot =>
    refine mem_filter.mpr ⟨he, ?_⟩
    cases haction : e.action with
    | add slot' slotType =>
      simp only [Event.isAddFor, haction, Bool.not_eq_true', decide_eq_false_iff_not]
      -- an `add` for this slot is for the section of the `disable`, which asks for no `add`
      intro hslot
      have hresource : e.resource = (disable slot).resource := by
        simp [Event.resource, haction, resource, hslot]
      have hadd := h hresource (by rw [haction]; rfl)
      cases hadd
    | _ => simp [Event.isAddFor, haction]
  | _ => exact he

/-- A worker that has a current event for the section has not only stale ones. -/
theorem Orderly.pending_queue (h : s.Orderly) (hx : s.Pending x) {worker : Fin workers} {e : Event}
    {phase : Phase} (hjob : s.jobs worker = some ⟨e, phase⟩) (hr : e.resource = x)
    (hstale : s.isCurrent e = false) : ∃ e ∈ s.queue, e.resource = x ∧ s.isCurrent e = true := by
  rcases hx with hx | ⟨w, e', phase', hj, -, hr', hcurrent⟩
  · exact hx
  · have hw := h.exclusive w worker _ _ hj hjob (hr'.trans hr.symm)
    subst hw
    rw [hjob] at hj
    cases hj
    rw [hstale] at hcurrent
    cases hcurrent

end State

namespace Tracked

/-- The history and the state belong together. -/
structure Faithful (t : Tracked workers) : Prop where
  counted : ∀ x, t.state.generation x = queuedFor t.made x
  current : ∀ e, t.state.Live e → t.state.isCurrent e = true → Unsuperseded t.made e
  kept : ∀ x a, lastFor (t.made.map (·.action)) x = some a → t.state.Pending x ∨ t.state.Settled x a

theorem faithful_initial : Faithful (initial : Tracked workers) where
  counted x := rfl
  current := by rintro e (h | ⟨w, p, h⟩) <;> cases h
  kept := by rintro x a h; cases h

theorem Faithful.won {t : Tracked workers} (h : t.Faithful) : t.Won := by
  intro hqueue hjobs x a hlast
  rcases h.kept x a hlast with (⟨e, he, -⟩ | ⟨w, e, phase, hj, -⟩) | hsettled
  · rw [hqueue] at he
    cases he
  · rw [hjobs w] at hj
    cases hj
  · exact hsettled.1

/-! ## Workers -/

namespace Faithful

variable {s : State workers} {made : List Made} {worker : Fin workers} {e : Event} {phase : Phase}

/-- A worker may go on with its event, and be through with it when it is stale. -/
theorem setPhase (h : Faithful ⟨s, made⟩) (hjob : s.jobs worker = some ⟨e, phase⟩)
    {phase' : Phase} (hspent : phase' = .spent → s.isCurrent e = false)
    (hvalid : phase' = .valid → s.isCurrent e = true) :
    Faithful ⟨s.setPhase worker e phase', made⟩ where
  counted := h.counted
  current e' he' := h.current e' (he'.imp_right (running_setPhase hjob phase').mp)
  kept x a hlast := by
    rcases h.kept x a hlast with hpending | hsettled
    · refine .inl (hpending.setPhase hjob fun _ hcurrent hp => ?_)
      rw [hspent hp] at hcurrent
      cases hcurrent
    · exact .inr (hsettled.setPhase hvalid)

/-- What a worker does for a current event is what was asked for last; what it does for a stale one
is followed by the event that superseded it. -/
theorem act (h : Faithful ⟨s, made⟩) (ho : s.Orderly) (hjob : s.jobs worker = some ⟨e, phase⟩)
    (hvalid : phase = .valid ∨ s.isCurrent e = true) : Faithful ⟨s.act worker e, made⟩ where
  counted := h.counted
  current e' he' := h.current e' (he'.imp_right (running_setPhase hjob .spent).mp)
  kept x a hlast := by
    have hself : e.action.effect.resource = e.resource := resource_effect _
    by_cases hx : e.resource = x
    · subst hx
      by_cases hcurrent : s.isCurrent e = true
      · -- the effect is that of the last request
        have ha := (h.current e (Orderly.live_of_job hjob) hcurrent).lastFor_eq.symm.trans hlast
        cases ha
        refine .inr ⟨by rw [State.act, ← hself]; exact lastFor_cons_self, fun w e' hj hr => ?_⟩
        obtain ⟨-, heq⟩ | ⟨hw, hj⟩ := update_job_iff.mp hj
        · cases heq
        · exact absurd (ho.exclusive w worker _ _ hj hjob hr) hw
      · -- the newer event is still in the queue
        have hphase : phase = .valid := hvalid.resolve_right hcurrent
        subst hphase
        rcases h.kept _ a hlast with hpending | ⟨-, hworking⟩
        · exact .inl (.inl (ho.pending_queue hpending hjob rfl (Bool.eq_false_iff.mpr hcurrent)))
        · exact absurd (hworking worker e hjob rfl) hcurrent
    · rcases h.kept x a hlast with hpending | hsettled
      · exact .inl (hpending.setPhase hjob fun hr => absurd hr hx)
      · have hspent : (s.setPhase worker e .spent).Settled x a := hsettled.setPhase nofun
        refine .inr ⟨?_, hspent.2⟩
        rw [← hsettled.1]
        exact lastFor_cons_of_ne (hself.trans_ne hx)

/-- Taking an event keeps history and state together. -/
theorem dequeueEvent {now : ℤ} (h : Faithful ⟨s, made⟩) (hfree : s.jobs worker = none)
    (hfind : s.queue.find? (s.mayTake now) = some e) :
    Faithful ⟨s.dequeueEvent worker now, made⟩ := by
  rw [State.dequeueEvent, hfind]
  refine ⟨h.counted, fun e' he' => h.current e' ?_, fun x a hlast => ?_⟩
  · rcases he' with he' | he'
    · exact .inl (mem_of_mem_eraseP he')
    · rcases (running_start hfree).mp he' with rfl | he'
      · exact .inl (mem_of_find?_eq_some hfind)
      · exact .inr he'
  · rcases h.kept x a hlast with (⟨e', he', hr, hcurrent⟩ | ⟨w, e', p, hj, hp, hr, hcurrent⟩) |
      ⟨hdone, hworking⟩
    · -- what was pending in the queue is now with the worker or still there
      rcases mem_cons.mp ((eraseP_perm hfind).mem_iff.mp he') with rfl | he'
      · exact .inl (.inr ⟨worker, e', .taken, update_self .., by decide, hr, hcurrent⟩)
      · exact .inl (.inl ⟨e', he', hr, hcurrent⟩)
    · refine .inl (.inr ⟨w, e', p, update_job_iff.mpr (.inr ⟨?_, hj⟩), hp, hr, hcurrent⟩)
      rintro rfl
      cases hfree.symm.trans hj
    · refine .inr ⟨hdone, fun w e' hj hr => ?_⟩
      obtain ⟨-, heq⟩ | ⟨-, hj⟩ := update_job_iff.mp hj
      · cases heq
      · exact hworking w e' hj hr

/-- A current event that returns to the queue is pending there. -/
theorem retry (h : Faithful ⟨s, made⟩) (hjob : s.jobs worker = some ⟨e, .failed⟩)
    (hcurrent : s.isCurrent e = true) (notBefore : ℤ) (attempts : ℕ) :
    Faithful ⟨(s.push ⟨e.action, notBefore, attempts, e.generation⟩).setPhase worker e .spent, made⟩ := by
  -- the event is queued under its own generation, which is that of the section
  have hgeneration : update s.generation e.resource e.generation = s.generation := by
    rw [isCurrent_iff.mp hcurrent, update_eq_self]
  have hpush : s.push ⟨e.action, notBefore, attempts, e.generation⟩ =
      { s with queue := insertEvent ⟨e.action, notBefore, attempts, e.generation⟩ s.queue } := by
    simp only [push, Event.resource] at hgeneration ⊢
    rw [hgeneration]
  rw [hpush]
  refine ⟨h.counted, fun e' he' hcur => ?_, fun x a hlast => ?_⟩
  · rcases he' with he' | he'
    · rcases mem_insertEvent.mp he' with rfl | he'
      · exact (h.current e (Orderly.live_of_job hjob) hcurrent).retry notBefore attempts
      · exact h.current e' (.inl he') hcur
    · exact h.current e' (.inr ((running_setPhase hjob .spent).mp he')) hcur
  · -- the section of the event is pending again, the others are as before
    by_cases hx : e.resource = x
    · exact .inl (.inl ⟨_, mem_insertEvent.mpr (.inl rfl), hx, hcurrent⟩)
    · rcases h.kept x a hlast with hpending | hsettled
      · refine .inl (.setPhase (hpending.imp_left ?_) hjob fun hr => absurd hr hx)
        rintro ⟨e', he', hcur⟩
        exact ⟨e', mem_insertEvent.mpr (.inr he'), hcur⟩
      · exact .inr (.setPhase hsettled fun hvalid => absurd hvalid (by decide))

/-- A worker that is done has settled its section. -/
theorem finishEventKey (h : Faithful ⟨s, made⟩) (hjob : s.jobs worker = some ⟨e, .spent⟩) :
    Faithful ⟨s.finishEventKey worker e, made⟩ := by
  refine ⟨h.counted, fun e' he' => h.current e' (he'.imp_right ?_), fun x a hlast => ?_⟩
  · rintro ⟨w, p, hj⟩
    exact ⟨w, p, job_of_finishEventKey hj⟩
  · rcases h.kept x a hlast with (hqueue | ⟨w, e', p, hj, hp, hr, hcurrent⟩) | ⟨hdone, hworking⟩
    · exact .inl (.inl hqueue)
    · refine .inl (.inr ⟨w, e', p, update_job_iff.mpr (.inr ⟨?_, hj⟩), hp, hr, hcurrent⟩)
      rintro rfl
      cases hjob.symm.trans hj
      exact hp rfl
    · exact .inr ⟨hdone, fun w e' hj hr => hworking w e' (job_of_finishEventKey hj) hr⟩

/-! ## Requests -/

/-- Pending sections stay pending when a request takes `add`s of another section out of the queue.
-/
theorem kept_of_ne {a : Action} {x : Text} (hne : a.resource ≠ x)
    (h : s.Pending x) : (s.withoutPendingAdds a).Pending x := by
  rcases h with ⟨e, he, hr, hcurrent⟩ | ⟨w, e, p, hj, hp, hr, hcurrent⟩
  · have hmem := mem_withoutPendingAdds he fun h => absurd (h.symm.trans hr) hne
    exact .inl ⟨e, hmem, hr, by simpa using hcurrent⟩
  · exact .inr ⟨w, e, p, by simpa using hj, hp, hr, by simpa using hcurrent⟩

/-- A request for what was asked for last changes nothing. -/
theorem duplicate (h : Faithful ⟨s, made⟩) {a : Action}
    (hlast : lastFor (made.map (·.action)) a.resource = some a.effect) :
    Faithful ⟨s.withoutPendingAdds a, ⟨a.effect, .deduplicated⟩ :: made⟩ := by
  -- a current event for the section does what the duplicate asks for
  have hcurrent (e : Event) (he : s.Live e) (hcur : s.isCurrent e = true)
      (hr : e.resource = a.resource) : e.action.effect = a.effect := by
    have heffect := (h.current e he hcur).lastFor_eq
    rw [hr, hlast] at heffect
    exact (Option.some.inj heffect).symm
  refine ⟨fun x => ?_, fun e he hcur => ?_, fun x b hb => ?_⟩
  · simpa using h.counted x
  · have he := live_of_withoutPendingAdds he
    rw [isCurrent_withoutPendingAdds] at hcur
    refine (h.current e he hcur).cons fun hr => ?_
    rw [hcurrent e he hcur (by simpa using hr.symm)]
  · -- the last request is the one before the duplicate, or asks for the same
    have hb : lastFor (made.map (·.action)) x = some b := by
      by_cases hx : a.resource = x
      · subst hx
        rw [hlast, ← hb, map_cons, ← resource_effect, lastFor_cons_self]
      · rw [← hb, map_cons, lastFor_cons_of_ne (by simpa using hx)]
    rcases h.kept x b hb with (⟨e, he, hr, hcur⟩ | ⟨w, e, p, hj, hp, hr, hcur⟩) | ⟨hdone, hworking⟩
    · refine .inl (.inl ⟨e, mem_withoutPendingAdds he fun hra hadd => ?_, hr, ?_⟩)
      · have := hcurrent e (.inl he) hcur hra
        rw [← isAdd_effect, ← this, isAdd_effect]
        exact hadd
      · simpa using hcur
    · exact .inl (.inr ⟨w, e, p, by simpa using hj, hp, hr, by simpa using hcur⟩)
    · refine .inr ⟨by simpa using hdone, fun w e hj hr => ?_⟩
      simpa using hworking w e (by simpa using hj) hr

/-- A request with a new generation supersedes what was there. -/
theorem queue (h : Faithful ⟨s, made⟩) (ho : s.Orderly) {a : Action} (notBefore : ℤ) :
    Faithful ⟨(s.withoutPendingAdds a).push ⟨a, notBefore, 0, s.generation a.resource + 1⟩,
      ⟨a.effect, .queued⟩ :: made⟩ := by
  set new : Event := ⟨a, notBefore, 0, s.generation a.resource + 1⟩ with hnew
  have hpush : ((s.withoutPendingAdds a).push new).generation =
      update s.generation a.resource (s.generation a.resource + 1) := by
    simp [push, hnew, Event.resource]
  have hcurrent {e : Event} (hr : e.resource ≠ a.resource) :
      ((s.withoutPendingAdds a).push new).isCurrent e = s.isCurrent e := by
    simp [isCurrent, hpush, update_of_ne hr]
  refine ⟨fun x => ?_, fun e he hcur => ?_, fun x b hb => ?_⟩
  · -- one more request is counted for this section
    rw [hpush, queuedFor_cons_queued, ← h.counted x]
    by_cases hx : a.resource = x
    · subst hx
      simp
    · simp [update_of_ne (Ne.symm hx), hx]
  · rcases live_push.mp he with rfl | he
    · have hgeneration : new.generation = queuedFor made new.resource + 1 := by
        rw [← h.counted]
        rfl
      exact .new hgeneration
    · replace he := live_of_withoutPendingAdds he
      -- an older event of the section is below the new generation
      have hr : e.resource ≠ a.resource := by
        intro hr
        have hle := ho.bounded e he
        rw [isCurrent_iff, hpush, hr, update_self] at hcur
        rw [hr] at hle
        omega
      rw [hcurrent hr] at hcur
      exact (h.current e he hcur).cons fun hr' => absurd (by simpa using hr'.symm) hr
  · by_cases hx : a.resource = x
    · subst hx
      -- the new event itself is what is pending for its section
      refine .inl (.inl ⟨new, mem_insertEvent.mpr (.inl rfl), rfl, ?_⟩)
      rw [isCurrent_iff, hpush]
      simp [hnew, Event.resource]
    · rw [map_cons, lastFor_cons_of_ne (by simpa using hx)] at hb
      rcases h.kept x b hb with hpending | ⟨hdone, hworking⟩
      · rcases kept_of_ne hx hpending with ⟨e, he, hr, hcur⟩ | ⟨w, e, p, hj, hp, hr, hcur⟩
        · refine .inl (.inl ⟨e, mem_insertEvent.mpr (.inr he), hr, ?_⟩)
          rwa [hcurrent (by rw [hr]; exact Ne.symm hx), ← isCurrent_withoutPendingAdds a]
        · refine .inl (.inr ⟨w, e, p, hj, hp, hr, ?_⟩)
          rwa [hcurrent (by rw [hr]; exact Ne.symm hx), ← isCurrent_withoutPendingAdds a]
      · refine .inr ⟨by simpa [push] using hdone, fun w e hj hr => ?_⟩
        rw [hcurrent (by rw [hr]; exact Ne.symm hx)]
        exact hworking w e (by simpa [push] using hj) hr

end Faithful

variable {s : State workers} {a : Action} {association : Association} {action resolved : Action}

theorem request_answer {delay now : ℤ} (hresolve : action.resolve association = some resolved) :
    (s.enqueueEventEx none action delay 0 association now).2 =
      if (s.withoutPendingAdds resolved).hasKey resolved 0 then .deduplicated else .queued := by
  simp only [enqueueEventEx, hresolve, enqueue]
  split_ifs <;> first | rfl | simp_all

/-- The event a duplicate is taken to repeat. -/
theorem exists_of_hasKey (ho : s.Orderly) (h : (s.withoutPendingAdds a).hasKey a 0 = true) :
    ∃ e, (e ∈ s.queue ∨ a.isAdd = false ∧ Running s.jobs e) ∧ e.key = a.key ∧
      (s.withoutPendingAdds a).Live e := by
  rcases hasKey_request.mp h with ⟨e, he, hk⟩ | ⟨hadd, hactive⟩
  · exact ⟨e, .inl (mem_of_mem_withoutPendingAdds he), hk, .inl he⟩
  · rw [withoutPendingAdds_activeKeys] at hactive
    obtain ⟨e, he, hk⟩ := (ho.keys.mem _).mp hactive
    exact ⟨e, .inr ⟨hadd, he⟩, hk, .inr (by simpa using he)⟩

/-- An event with the key of a request makes it a duplicate. -/
theorem hasKey_of_mem (ho : s.Orderly) {e : Event}
    (he : e ∈ s.queue ∨ a.isAdd = false ∧ Running s.jobs e) (hk : e.key = a.key)
    (haction : e.action = a) : (s.withoutPendingAdds a).hasKey a 0 = true := by
  refine hasKey_request.mpr ?_
  rcases he with he | ⟨hadd, he⟩
  · refine .inl ⟨e, mem_withoutPendingAdds he fun _ hadd => ?_, hk⟩
    rw [← haction]
    exact hadd
  · rw [withoutPendingAdds_activeKeys]
    exact .inr ⟨hadd, (ho.keys.mem _).mpr ⟨e, he, hk⟩⟩

theorem live_of_mem {e : Event} (he : e ∈ s.queue ∨ a.isAdd = false ∧ Running s.jobs e) :
    s.Live e :=
  he.imp_right And.right

variable {config : Config} {t : Tracked workers} {op : Step workers}

theorem made_step_of_not_request (h : ∀ a d as n, op ≠ .request a d as n) :
    (t.step config op).made = t.made := by
  cases op with
  | request a d as n => exact absurd rfl (h a d as n)
  | _ => rfl

theorem careful_of_not_request (h : ∀ a d as n, op ≠ .request a d as n) : Careful t op :=
  fun a d as n _ hop => absurd hop (h a d as n)

/-- A careful step keeps history and state together. -/
theorem Faithful.step (h : t.Faithful) (ho : t.state.Orderly)
    (hundisturbed : State.Undisturbed config t.state op) (hcareful : Careful t op) :
    (t.step config op).Faithful := by
  obtain ⟨s, made⟩ := t
  have hchange := step_change ho hundisturbed
  have hsplit : Tracked.step config ⟨s, made⟩ op =
      ⟨s.step config op, (Tracked.step config ⟨s, made⟩ op).made⟩ := rfl
  rw [hsplit]
  -- one case for each change a step can make
  generalize s.step config op = s' at hchange
  cases hchange with
  | unchanged hnone =>
    have hmade : (Tracked.step config ⟨s, made⟩ op).made = made := by
      cases op with
      | request a d as n => simp [Tracked.step, hnone a d as n rfl]
      | _ => rfl
    rw [hmade]
    exact h
  | @deduplicated action delay association now resolved hresolve hkey =>
    obtain ⟨e, he, hk, -⟩ := exists_of_hasKey ho hkey
    -- the event that stands for the request is current, so the request repeats the last one
    have hcurrent := hcareful action delay association now resolved rfl hresolve e he hk
    have hlive := live_of_mem he
    have haction : e.action = resolved :=
      key_injective (ho.clean e hlive) (.resolve hundisturbed hresolve) hk
    have hlast := (h.current e hlive hcurrent).lastFor_eq
    rw [Event.resource, haction] at hlast
    simpa [Tracked.step, hresolve, request_answer hresolve, hkey] using h.duplicate hlast
  | queued hresolve hclean hkey notBefore =>
    simpa [Tracked.step, hresolve, request_answer hresolve, hkey] using h.queue ho notBefore
  | taken hfree hfind => exact h.dequeueEvent hfree hfind
  | advanced hstep hjob hphase hphase' hvalid =>
    rw [made_step_of_not_request hstep]
    exact h.setPhase hjob (fun hspent => absurd hspent hphase') hvalid
  | dropped hstep hjob hphase hstale =>
    rw [made_step_of_not_request hstep]
    exact h.setPhase hjob (fun _ => hstale) (fun hvalid => by cases hvalid)
  | acted hstep hjob hphase hvalid =>
    rw [made_step_of_not_request hstep]
    exact h.act ho hjob hvalid
  | retried hstep hjob hadd hcurrent hkey notBefore attempts =>
    rw [made_step_of_not_request hstep]
    exact h.retry hjob hcurrent notBefore attempts
  | finished hstep hjob =>
    rw [made_step_of_not_request hstep]
    exact h.finishEventKey hjob

/-- Two live events with one key: if one of them is current, so is the other that a request sees. -/
theorem isCurrent_of_key (ho : s.Orderly) {e m : Event} (he : s.Live e)
    (hcurrent : s.isCurrent e = true) (haction : m.action = a)
    (hm : m ∈ s.queue ∨ a.isAdd = false ∧ Running s.jobs m) (hk : m.key = e.key) :
    s.isCurrent m = true := by
  have hresource := ho.resource_eq (live_of_mem hm) he hk
  rw [isCurrent_iff] at hcurrent ⊢
  have hle := ho.bounded m (live_of_mem hm)
  rw [hresource] at hle ⊢
  rcases he with he | ⟨w, phase, hj⟩
  · rcases hm with hm | ⟨hadd, w, phase, hj⟩
    · -- keys in the queue are distinct
      have heq : m = e := inj_on_of_nodup_map ho.distinct hm he hk
      rw [heq, hcurrent]
    · -- only an `add` is queued while its key is under way
      have := (ho.newer w m phase hj e he hk.symm).1
      rw [haction, hadd] at this
      cases this
  · rcases hm with hm | ⟨-, w', phase', hj'⟩
    · have := (ho.newer w e phase hj m hm hk).2.1
      omega
    · have hw := ho.exclusive w' w _ _ hj' hj hresource
      subst hw
      rw [hj] at hj'
      cases hj'
      exact hcurrent

/-- A request with a known key only discards the pending adds it supersedes, and is noted as a
duplicate. -/
theorem step_of_hasKey {delay now : ℤ} (hresolve : action.resolve association = some resolved)
    (hkey : (t.state.withoutPendingAdds resolved).hasKey resolved 0 = true) :
    t.step config (.request action delay association now) =
      ⟨t.state.withoutPendingAdds resolved, ⟨resolved.effect, .deduplicated⟩ :: t.made⟩ := by
  simp [Tracked.step, State.step, State.enqueueEventEx, hresolve, State.enqueue, hkey]

/-- A duplicate is one exactly when the event with its key is current. -/
theorem answered_iff (h : t.Faithful) (ho : t.state.Orderly)
    (hundisturbed : State.Undisturbed config t.state op) :
    Careful t op ↔ Answered config t op := by
  constructor
  · rintro hcareful action delay association now resolved rfl hresolve hanswer
    rw [request_answer hresolve] at hanswer
    have hkey : (t.state.withoutPendingAdds resolved).hasKey resolved 0 = true := by
      by_contra hkey
      rw [if_neg hkey] at hanswer
      cases hanswer
    -- the event with the key is current, so it is the one that was queued last
    obtain ⟨e, he, hk, hlive⟩ := exists_of_hasKey ho hkey
    have hcurrent := hcareful action delay association now resolved rfl hresolve e he hk
    have haction : e.action = resolved := key_injective (ho.clean e (live_of_mem he))
      (.resolve hundisturbed hresolve) hk
    rw [step_of_hasKey hresolve hkey]
    refine ⟨e, hlive, by rw [haction], ?_⟩
    exact (h.current e (live_of_mem he) hcurrent).cons fun _ => by rw [haction]
  · rintro hanswered action delay association now resolved rfl hresolve m hm hk
    have hclean := Clean.resolve hundisturbed hresolve
    have haction : m.action = resolved :=
      key_injective (ho.clean m (live_of_mem hm)) hclean hk
    have hkey := hasKey_of_mem ho hm hk haction
    obtain ⟨e, he, heffect, hunsuperseded⟩ := hanswered action delay association now resolved rfl
      hresolve (by rw [request_answer hresolve, if_pos hkey])
    rw [step_of_hasKey hresolve hkey] at he hunsuperseded
    -- the event that answers the request has the same action, hence the same key
    have hlive : t.state.Live e := live_of_withoutPendingAdds he
    have hcurrent : t.state.isCurrent e = true := by
      rw [isCurrent_iff, hunsuperseded.generation_eq, queuedFor_cons_deduplicated, h.counted]
    have haction' : e.action = resolved := by
      rwa [effect_of_clean (ho.clean e hlive), effect_of_clean hclean] at heffect
    refine isCurrent_of_key ho hlive hcurrent haction hm ?_
    rw [hk, Event.key, haction']

/-- Along an undisturbed run, duplicates are right as long as they are careful. -/
theorem along_answered_iff {steps : List (Step workers)}
    (hundisturbed : Along (Tracked.step config)
      (fun t op => State.Undisturbed config t.state op) initial steps) :
    Along (Tracked.step config) Careful initial steps ↔
      Along (Tracked.step config) (Answered config) initial steps :=
  along_iff_along (p := fun t : Tracked workers => t.state.Orderly ∧ t.Faithful)
    ⟨orderly_initial, faithful_initial⟩
    (fun _ _ hundisturbed h => answered_iff h.2 h.1 hundisturbed)
    (fun _ _ hundisturbed hcareful h =>
      ⟨h.1.step hundisturbed, h.2.step h.1 hundisturbed hcareful⟩) hundisturbed

/-- In a run that is not disturbed from outside, the last request for every section wins and every
duplicate repeats an event that is not superseded, exactly when every request with a known key finds
the event with that key current. -/
theorem lastRequest_iff (config : Config) (steps : List (Step workers))
    (hundisturbed : Along (Tracked.step config)
      (fun t op => State.Undisturbed config t.state op) initial steps) :
    Throughout (Tracked.step config) Won initial steps ∧
        Along (Tracked.step config) (Answered config) initial steps ↔
      Along (Tracked.step config) Careful initial steps := by
  have hiff := along_answered_iff hundisturbed
  refine ⟨fun h => hiff.mpr h.2, fun h => ⟨?_, hiff.mp h⟩⟩
  have hinvariant := throughout_of_along
    (p := fun t : Tracked workers => t.state.Orderly ∧ t.Faithful)
    ⟨orderly_initial, faithful_initial⟩
    (fun _ _ hok h => ⟨h.1.step hok.1, h.2.step h.1 hok.1 hok.2⟩) (along_and hundisturbed h)
  exact hinvariant.imp fun t h => h.2.won

/-! ## Two runs with one worker -/

def defaults : Config where
  addRetryDelay := 8
  addRetryMax := 5

def usbSlot : Word := ⟨ascii "2-1", by decide, by decide⟩

def usbSection : Word := ⟨ascii "2_1", by decide, by decide⟩

def addUsb : Action := .add usbSlot (ascii "usb")

theorem addUsb_clean : addUsb.Clean := by
  show (ascii "usb").length ≤ 15 ∧ (0x3a : UInt8) ∉ ascii "usb"
  decide +kernel

/-- A request while no worker is busy; only the queue counts. -/
theorem careful_of_idle {t : Tracked workers} {action : Action} {delay now : ℤ}
    (hidle : ∀ worker, t.state.jobs worker = none)
    (h : ∀ e ∈ t.state.queue, e.key = action.key → t.state.isCurrent e = true) :
    Careful t (.request action delay .none now) := by
  rintro action' delay' association now' resolved hop hresolved e (he | ⟨-, worker, phase, hjob⟩)
  · cases hop
    cases action <;> cases hresolved <;> exact h e he
  · rw [hidle worker] at hjob
    cases hjob

/-- Four requests for one section: an `add`, the same once more, a `remove` that supersedes it, and
an `add` when the worker has emptied the queue. -/
def addRemoveAdd : List (Step 1) :=
  [.request addUsb 0 .none 0, .request addUsb 0 .none 0, .request (.remove usbSection) 0 .none 1,
   .take 0 1, .check 0, .finish 0, .take 0 1, .check 0, .process 0 .ready, .finish 0,
   .request addUsb 0 .none 2, .take 0 2, .check 0, .process 0 .ready, .commit 0, .finish 0]

/-- In this run the last `add` wins: the section is removed and then added. -/
theorem lastRequest_addRemoveAdd :
    Throughout (Tracked.step defaults) Won initial addRemoveAdd ∧
      Along (Tracked.step defaults) (Answered defaults) initial addRemoveAdd ∧
      (run (Tracked.step defaults) initial addRemoveAdd).state.effects =
        [addUsb, .remove usbSection] := by
  have hother {t : Tracked 1} {op : Step 1} (h : ∀ a d as n, op ≠ .request a d as n) :
      Careful t op := careful_of_not_request h
  have hlast := (lastRequest_iff defaults addRemoveAdd ?_).mpr ?_
  · exact ⟨hlast.1, hlast.2, by decide +kernel⟩
  · exact ⟨addUsb_clean, addUsb_clean, trivial, trivial, trivial, trivial, trivial, trivial, nofun,
      trivial, addUsb_clean, trivial, trivial, nofun, trivial, trivial, trivial⟩
  · -- no worker is busy when a request comes; the second `add` finds the first one current
    exact ⟨careful_of_idle (by decide) (by decide), careful_of_idle (by decide) (by decide +kernel),
      careful_of_idle (by decide) (by decide +kernel), hother (by simp), hother (by simp),
      hother (by simp), hother (by simp), hother (by simp), hother (by simp), hother (by simp),
      careful_of_idle (by decide +kernel) (by decide +kernel), hother (by simp), hother (by simp),
      hother (by simp), hother (by simp), hother (by simp), trivial⟩

/-- A delayed `add`, a `remove`, and the `add` once more; then the worker empties the queue. -/
def lostAdd : List (Step 1) :=
  [.request addUsb 10 .none 0, .request (.remove usbSection) 0 .none 0, .request addUsb 0 .none 1,
   .take 0 1, .check 0, .process 0 .ready, .finish 0,
   .take 0 20, .check 0, .finish 0]

/-- The second `add` is answered as a duplicate of the first, which the `remove` has superseded: the
section ends up removed. -/
theorem staleDuplicate_not_won :
    Along (Tracked.step defaults) (fun t op => State.Undisturbed defaults t.state op) initial
        lostAdd ∧
      ¬ Won (run (Tracked.step defaults) initial lostAdd) ∧
      ¬ Along (Tracked.step defaults) (Answered defaults) initial lostAdd := by
  have hundisturbed : Along (.step defaults)
      (fun t op => Undisturbed defaults t.state op) initial lostAdd :=
    ⟨addUsb_clean, trivial, addUsb_clean, trivial, trivial, nofun, trivial, trivial, trivial,
      trivial, trivial⟩
  refine ⟨hundisturbed, fun hwon => ?_, fun hanswered => ?_⟩
  · have hlast := hwon (by decide +kernel) (by decide +kernel) usbSection.text addUsb
      (by decide +kernel)
    exact absurd hlast (by decide +kernel)
  · -- the second `add` finds an event with its key that the `remove` has made stale
    have hcareful := (along_answered_iff hundisturbed).mpr hanswered
    have hcurrent := hcareful.2.2.1 addUsb 0 .none 1 addUsb rfl rfl ⟨addUsb, 10, 0, 1⟩
      (.inl (by decide +kernel)) rfl
    exact absurd hcurrent (by decide +kernel)

end Tracked

end QModem.Scan
