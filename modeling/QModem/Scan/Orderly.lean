import QModem.Lib.Run
import QModem.Scan.Scheduler

/-!
# What a Step of the Scheduler Changes

Events of one section are processed one after the other, keys tell events apart, and an event that
enters the queue while another one with its key is under way is newer.

## Main results

- `Action.key_injective`: two events with one key ask for the same
- `Orderly.step`: the order is kept by every step
- `State.step_change`: all that a step of an orderly state can do
-/

namespace QModem.Scan

open Lib List

/-! ## Keys -/

theorem Word.ext {v w : Word} (h : v.text = w.text) : v = w := by
  cases v; cases w; cases h; rfl

namespace Action

/-- The slot type fits into its field and has no colon. -/
def Clean : Action → Prop
  | add _ slotType => slotType.length ≤ 15 ∧ (0x3a : UInt8) ∉ slotType
  | _ => True

theorem effect_of_clean {a : Action} (h : a.Clean) : a.effect = a := by
  cases a with
  | add slot slotType => rw [effect, take_of_length_le h.1]
  | _ => rfl

@[simp] theorem resource_effect (a : Action) : a.effect.resource = a.resource := by
  cases a <;> rfl

@[simp] theorem isAdd_effect (a : Action) : a.effect.isAdd = a.isAdd := by
  cases a <;> rfl

/-- The slot type `pcie` that a request may get instead of its own is clean, too. -/
theorem Clean.resolve {a b : Action} {association : Association} (h : a.Clean)
    (hb : a.resolve association = some b) : b.Clean := by
  have hpcie : (ascii "pcie").length ≤ 15 ∧ (0x3a : UInt8) ∉ ascii "pcie" := by decide +kernel
  cases a with
  | add slot slotType =>
    cases association with
    | none => cases hb; exact h
    | ambiguous => cases hb
    | owner owner => cases hb; exact hpcie
  | disable slot => cases association <;> cases hb <;> trivial
  | remove _ => cases hb; trivial
  | scan _ => cases hb; trivial

theorem resource_ne_nil (a : Action) : a.resource ≠ [] := by
  cases a with
  | add slot _ => simpa [resource, sectionFromSlot] using slot.ne_nil
  | remove section_ => exact section_.ne_nil
  | disable slot => simpa [resource, sectionFromSlot] using slot.ne_nil
  | scan target =>
    have hscan : ascii "scan:" ≠ [] := by decide
    simp [resource, hscan]

/-- The text of a key before it is cut to the size of its buffer. -/
def keyText : Action → Text
  | add slot slotType => ascii "add:" ++ (slotType ++ 0x3a :: slot.text)
  | remove section_ => ascii "remove:" ++ section_.text
  | disable slot => ascii "disable:" ++ slot.text
  | scan target => ascii "scan:" ++ target.text

/-- The key of a clean event fits into its buffer, so nothing is cut off. -/
theorem key_eq_keyText {a : Action} (h : a.Clean) : a.key = a.keyText := by
  have hlengths : (ascii "add:").length = 4 ∧ (ascii "remove:").length = 7 ∧
      (ascii "disable:").length = 8 ∧ (ascii "scan:").length = 5 := by decide +kernel
  obtain ⟨hadd, hremove, hdisable, hscan⟩ := hlengths
  have hcolon : ascii ":" = [0x3a] := by decide
  cases a with
  | add slot slotType =>
    -- 4 bytes, at most 15 for the type, a colon and at most 127 for the slot
    have hslot := slot.length_lt
    have htype := h.1
    rw [key, take_of_length_le]
    · simp [keyText, hcolon]
    · simp only [length_append, hadd, hcolon, length_cons, length_nil]
      omega
  | remove section_ =>
    have := section_.length_lt
    exact take_of_length_le (by simp only [length_append, hremove]; omega)
  | disable slot =>
    have := slot.length_lt
    exact take_of_length_le (by simp only [length_append, hdisable]; omega)
  | scan target =>
    have := target.length_lt
    exact take_of_length_le (by simp only [length_append, hscan]; omega)

/-- **Keys**: clean events with one key are the same. -/
theorem key_injective {a b : Action} (ha : a.Clean) (hb : b.Clean) (h : a.key = b.key) :
    a = b := by
  rw [key_eq_keyText ha, key_eq_keyText hb] at h
  -- the first letter tells the type of the event
  have hletters : ascii "add:" = 0x61 :: ascii "dd:" ∧ ascii "remove:" = 0x72 :: ascii "emove:" ∧
      ascii "disable:" = 0x64 :: ascii "isable:" ∧ ascii "scan:" = 0x73 :: ascii "can:" := by
    decide +kernel
  obtain ⟨hadd, hremove, hdisable, hscan⟩ := hletters
  cases a <;> cases b <;> simp only [keyText] at h
  case add.add slot slotType slot' slotType' =>
    have hrest := append_cancel_left h
    -- the slot may contain colons, the slot type ends at the first one
    have hstop (slotType : Text) (hclean : (0x3a : UInt8) ∉ slotType) (slot : Text) :
        (slotType ++ 0x3a :: slot).takeWhile (· ≠ 0x3a) = slotType := by
      rw [takeWhile_append_of_pos fun b hb => by simpa using ne_of_mem_of_not_mem hb hclean]
      simp
    have htype : slotType = slotType' := by
      rw [← hstop slotType ha.2 slot.text, hrest, hstop slotType' hb.2]
    subst htype
    rw [Word.ext (cons.inj (append_cancel_left hrest)).2]
  case remove.remove => rw [Word.ext (append_cancel_left h)]
  case disable.disable => rw [Word.ext (append_cancel_left h)]
  case scan.scan => rw [Word.ext (append_cancel_left h)]
  all_goals simp [hadd, hremove, hdisable, hscan] at h

theorem key_ne_nil {a : Action} (h : a.Clean) : a.key ≠ [] := by
  rw [key_eq_keyText h]
  cases a <;> simp [keyText, ascii]

end Action

/-! ## Events in the queue and with workers -/

section

variable {workers : ℕ}

def Running (jobs : Fin workers → Option Job) (e : Event) : Prop :=
  ∃ worker phase, jobs worker = some ⟨e, phase⟩

variable {jobs : Fin workers → Option Job} {worker : Fin workers} {e e' : Event} {phase : Phase}

/-- The jobs after that of one worker has changed. -/
theorem update_job_iff {job : Option Job} {w : Fin workers} {j : Job} :
    Function.update jobs worker job w = some j ↔
      w = worker ∧ job = some j ∨ w ≠ worker ∧ jobs w = some j := by
  by_cases hw : w = worker
  · simp [hw]
  · simp [hw]

/-- A worker that goes on to another phase keeps its event. -/
theorem running_setPhase (hjob : jobs worker = some ⟨e, phase⟩) (phase' : Phase) :
    Running (Function.update jobs worker (some ⟨e, phase'⟩)) e' ↔ Running jobs e' := by
  constructor
  · rintro ⟨w, p, h⟩
    obtain ⟨rfl, heq⟩ | ⟨-, h⟩ := update_job_iff.mp h
    · cases heq
      exact ⟨w, phase, hjob⟩
    · exact ⟨w, p, h⟩
  · rintro ⟨w, p, h⟩
    by_cases hw : w = worker
    · subst hw
      cases hjob.symm.trans h
      exact ⟨w, phase', Function.update_self ..⟩
    · exact ⟨w, p, update_job_iff.mpr (.inr ⟨hw, h⟩)⟩

/-- A free worker that takes an event has it beside those that others have. -/
theorem running_start (hfree : jobs worker = none) :
    Running (Function.update jobs worker (some ⟨e, phase⟩)) e' ↔ e' = e ∨ Running jobs e' := by
  constructor
  · rintro ⟨w, p, h⟩
    obtain ⟨-, heq⟩ | ⟨-, h⟩ := update_job_iff.mp h
    · cases heq
      exact .inl rfl
    · exact .inr ⟨w, p, h⟩
  · rintro (rfl | ⟨w, p, h⟩)
    · exact ⟨worker, phase, Function.update_self ..⟩
    · refine ⟨w, p, update_job_iff.mpr (.inr ⟨?_, h⟩)⟩
      rintro rfl
      cases hfree.symm.trans h

/-- No two workers have events with the same value. -/
def Exclusive (f : Event → Text) (jobs : Fin workers → Option Job) : Prop :=
  ∀ w w' j j', jobs w = some j → jobs w' = some j' → f j.event = f j'.event → w = w'

/-- A worker that is done gives up its event, which is told from the others by an exclusive value.
-/
theorem running_finish {f : Event → Text} (hf : Exclusive f jobs)
    (hjob : jobs worker = some ⟨e, phase⟩) :
    Running (Function.update jobs worker none) e' ↔ f e' ≠ f e ∧ Running jobs e' := by
  constructor
  · rintro ⟨w, p, h⟩
    obtain ⟨-, heq⟩ | ⟨hw, h⟩ := update_job_iff.mp h
    · cases heq
    · exact ⟨fun hfe => hw (hf w worker _ _ h hjob hfe), w, p, h⟩
  · rintro ⟨hne, w, p, h⟩
    refine ⟨w, p, update_job_iff.mpr (.inr ⟨?_, h⟩)⟩
    rintro rfl
    cases hjob.symm.trans h
    exact hne rfl

/-- The list has exactly the values of the events with workers, each once. -/
structure Lists (f : Event → Text) (jobs : Fin workers → Option Job) (l : List Text) : Prop where
  nodup : l.Nodup
  mem : ∀ x, x ∈ l ↔ ∃ e, Running jobs e ∧ f e = x

variable {f : Event → Text} {l : List Text}

theorem Lists.setPhase (h : Lists f jobs l) (hjob : jobs worker = some ⟨e, phase⟩)
    (phase' : Phase) : Lists f (Function.update jobs worker (some ⟨e, phase'⟩)) l where
  nodup := h.nodup
  mem x := by simp only [h.mem, running_setPhase hjob]

theorem mem_slAdd {item x : Text} (hne : item ≠ []) :
    x ∈ State.slAdd l item ↔ x = item ∨ x ∈ l := by
  unfold State.slAdd
  split_ifs with h
  · have hmem : item ∈ l := h.resolve_left hne
    exact ⟨.inr, fun hx => hx.elim (fun hx => hx ▸ hmem) id⟩
  · simp [or_comm]

theorem nodup_slAdd {item : Text} (h : l.Nodup) : (State.slAdd l item).Nodup := by
  unfold State.slAdd
  split_ifs with hmem
  · exact h
  · rw [← concat_eq_append]
    exact h.concat (not_or.mp hmem).2

theorem Lists.start (h : Lists f jobs l) (hfree : jobs worker = none) (hne : f e ≠ []) :
    Lists f (Function.update jobs worker (some ⟨e, phase⟩)) (State.slAdd l (f e)) where
  nodup := nodup_slAdd h.nodup
  mem x := by simp [mem_slAdd hne, h.mem, running_start hfree, or_and_right, exists_or, eq_comm]

/-- When a worker is done, its value is taken from the list, where it stood once. -/
theorem Lists.finish (h : Lists f jobs l) (hf : Exclusive f jobs)
    (hjob : jobs worker = some ⟨e, phase⟩) :
    Lists f (Function.update jobs worker none) (l.erase (f e)) where
  nodup := h.nodup.erase _
  mem x := by
    rw [h.nodup.mem_erase_iff, h.mem]
    constructor
    · rintro ⟨hne, e', he', rfl⟩
      exact ⟨e', (running_finish hf hjob).mpr ⟨hne, he'⟩, rfl⟩
    · rintro ⟨e', he', rfl⟩
      obtain ⟨hne, he'⟩ := (running_finish hf hjob).mp he'
      exact ⟨hne, e', he', rfl⟩

end

namespace State

theorem insertEvent_perm (e : Event) (queue : List Event) :
    (insertEvent e queue).Perm (e :: queue) := by
  induction queue with
  | nil => exact .refl _
  | cons e' queue ih =>
    unfold insertEvent
    split
    · exact .refl _
    · exact (ih.cons e').trans (.swap e e' queue)

@[simp] theorem mem_insertEvent {e e' : Event} {queue : List Event} :
    e' ∈ insertEvent e queue ↔ e' = e ∨ e' ∈ queue := by
  rw [(insertEvent_perm e queue).mem_iff, mem_cons]

/-- Taking an event leaves the others in the queue. -/
theorem eraseP_perm {p : Event → Bool} {e : Event} {queue : List Event}
    (h : queue.find? p = some e) : queue.Perm (e :: queue.eraseP p) := by
  obtain ⟨hp, before, behind, rfl, hbefore⟩ := find?_eq_some_iff_append.mp h
  rw [eraseP_append_right _ fun b hb => by simpa using hbefore b hb, eraseP_cons_of_pos hp]
  exact perm_middle

variable {workers : ℕ}

/-- In the queue or with a worker. -/
def Live (s : State workers) (e : Event) : Prop := e ∈ s.queue ∨ Running s.jobs e

theorem live_push {s : State workers} {e e' : Event} :
    (s.push e).Live e' ↔ e' = e ∨ s.Live e' := by
  simp only [Live, push, mem_insertEvent, or_assoc]

theorem job_of_finishEventKey {s : State workers} {worker w : Fin workers} {e : Event} {j : Job}
    (hj : (s.finishEventKey worker e).jobs w = some j) : s.jobs w = some j := by
  obtain ⟨-, heq⟩ | ⟨-, hj⟩ := update_job_iff.mp hj
  · cases heq
  · exact hj

/-- What holds in every state of a run with clean requests. -/
structure Orderly (s : State workers) : Prop where
  clean : ∀ e, s.Live e → e.action.Clean
  resources : Lists Event.resource s.jobs s.activeResources
  keys : Lists Event.key s.jobs s.activeKeys
  exclusive : Exclusive Event.resource s.jobs
  distinct : (s.queue.map Event.key).Nodup
  bounded : ∀ e, s.Live e → e.generation ≤ s.generation e.resource
  /-- Only an `add` is queued while an event with its key is under way, and it is newer unless the
  worker itself has queued it again. -/
  newer : ∀ w e phase, s.jobs w = some ⟨e, phase⟩ → ∀ e' ∈ s.queue, e'.key = e.key →
    e.action.isAdd = true ∧ e.generation ≤ e'.generation ∧
      (phase ≠ .spent → e.generation < e'.generation)

theorem orderly_initial : Orderly (initial : State workers) where
  clean := by rintro e (h | ⟨w, p, h⟩) <;> cases h
  resources := ⟨nodup_nil, fun x => by simp [initial, Running]⟩
  keys := ⟨nodup_nil, fun x => by simp [initial, Running]⟩
  exclusive := by rintro w w' j j' h; cases h
  distinct := nodup_nil
  bounded := by rintro e (h | ⟨w, p, h⟩) <;> cases h
  newer := by rintro w e phase h; cases h

namespace Orderly

variable {s : State workers} {worker : Fin workers} {e : Event} {phase : Phase}

theorem live_of_job (hjob : s.jobs worker = some ⟨e, phase⟩) : s.Live e :=
  .inr ⟨worker, phase, hjob⟩

section

variable (h : s.Orderly)

include h

theorem action_eq {e e' : Event} (he : s.Live e) (he' : s.Live e') (hkey : e.key = e'.key) :
    e.action = e'.action :=
  Action.key_injective (h.clean e he) (h.clean e' he') hkey

theorem resource_eq {e e' : Event} (he : s.Live e) (he' : s.Live e') (hkey : e.key = e'.key) :
    e.resource = e'.resource := by
  rw [Event.resource, h.action_eq he he' hkey, Event.resource]

theorem exclusive_keys : Exclusive Event.key s.jobs := by
  rintro w w' ⟨e, p⟩ ⟨e', p'⟩ hj hj' hkey
  exact h.exclusive w w' _ _ hj hj' (h.resource_eq (live_of_job hj) (live_of_job hj') hkey)

/-- Events may leave the queue. -/
theorem of_sublist {queue : List Event} (hsub : queue.Sublist s.queue) : Orderly { s with queue } :=
  { h with
    clean := fun e he => h.clean e (he.imp_left fun he => hsub.mem he)
    distinct := h.distinct.sublist (hsub.map _)
    bounded := fun e he => h.bounded e (he.imp_left fun he => hsub.mem he)
    newer := fun w e phase hjob e' he' => h.newer w e phase hjob e' (hsub.mem he') }

theorem withoutPendingAdds (action : Action) : (s.withoutPendingAdds action).Orderly := by
  cases action with
  | disable slot => exact h.of_sublist filter_sublist
  | _ => exact h

/-- An event that is at least as new as its section may enter the queue under a new key. -/
theorem push (hclean : e.action.Clean) (hkey : ∀ e' ∈ s.queue, e'.key ≠ e.key)
    (hgeneration : s.generation e.resource ≤ e.generation)
    (hnewer : ∀ w e' phase, s.jobs w = some ⟨e', phase⟩ → e.key = e'.key →
      e'.action.isAdd = true ∧ e'.generation ≤ e.generation ∧
        (phase ≠ .spent → e'.generation < e.generation)) : (s.push e).Orderly where
  clean e' he' := by
    rcases live_push.mp he' with rfl | he'
    · exact hclean
    · exact h.clean e' he'
  resources := h.resources
  keys := h.keys
  exclusive := h.exclusive
  -- the key of the new event is none of those in the queue
  distinct := by
    refine (((insertEvent_perm e s.queue).map Event.key).nodup_iff).mpr ?_
    refine nodup_cons.mpr ⟨fun hmem => ?_, h.distinct⟩
    obtain ⟨e', he', hk⟩ := mem_map.mp hmem
    exact hkey e' he' hk
  -- only the generation of its own section goes up
  bounded e' he' := by
    rcases live_push.mp he' with rfl | he'
    · simp [State.push]
    · have hle := h.bounded e' he'
      by_cases hr : e'.resource = e.resource
      · simp only [State.push, hr, Function.update_self] at hle ⊢
        omega
      · simpa only [State.push, Function.update_of_ne hr] using hle
  newer w e' phase hjob e'' he'' hk := by
    rcases mem_insertEvent.mp he'' with rfl | he''
    · exact hnewer w e' phase hjob hk
    · exact h.newer w e' phase hjob e'' he'' hk

/-- A worker goes on with its event. -/
theorem setPhase (hjob : s.jobs worker = some ⟨e, phase⟩) (hphase : phase ≠ .spent) (phase' : Phase) :
    (s.setPhase worker e phase').Orderly where
  clean e' he' := h.clean e' (he'.imp_right (running_setPhase hjob phase').mp)
  resources := h.resources.setPhase hjob phase'
  keys := h.keys.setPhase hjob phase'
  exclusive w w' j j' hj hj' hr := by
    -- every job was there before, up to its phase
    have hback (w : Fin workers) (j : Job) (hj : (s.setPhase worker e phase').jobs w = some j) :
        ∃ p, s.jobs w = some ⟨j.event, p⟩ := by
      obtain ⟨rfl, heq⟩ | ⟨-, hj⟩ := update_job_iff.mp hj
      · -- the worker itself
        cases heq
        exact ⟨phase, hjob⟩
      · exact ⟨j.phase, hj⟩
    obtain ⟨p, hp⟩ := hback w j hj
    obtain ⟨p', hp'⟩ := hback w' j' hj'
    exact h.exclusive w w' _ _ hp hp' hr
  distinct := h.distinct
  bounded e' he' := h.bounded e' (he'.imp_right (running_setPhase hjob phase').mp)
  newer w e' p hj e'' he'' hk := by
    obtain ⟨rfl, heq⟩ | ⟨-, hj⟩ := update_job_iff.mp hj
    · cases heq
      obtain ⟨hadd, hle, hlt⟩ := h.newer w _ phase hjob e'' he'' hk
      exact ⟨hadd, hle, fun _ => hlt hphase⟩
    · exact h.newer w e' p hj e'' he'' hk

theorem withEffects (effects : List Action) : Orderly { s with effects } :=
  ⟨h.clean, h.resources, h.keys, h.exclusive, h.distinct, h.bounded, h.newer⟩

theorem act (hjob : s.jobs worker = some ⟨e, phase⟩) (hphase : phase ≠ .spent) :
    (s.act worker e).Orderly :=
  (h.setPhase hjob hphase .spent).withEffects _

end

/-- The parts of `dequeue_event` when it takes an event. -/
theorem mayTake_spec {now : ℤ} (h : s.Orderly) (hfind : s.queue.find? (s.mayTake now) = some e) :
    e ∈ s.queue ∧ ∀ e', Running s.jobs e' → e'.resource ≠ e.resource := by
  refine ⟨mem_of_find?_eq_some hfind, fun e' he' hr => ?_⟩
  have hfree := find?_some hfind
  simp only [mayTake, Bool.and_eq_true, Bool.not_eq_true', contains_eq_mem,
    decide_eq_false_iff_not] at hfree
  exact hfree.2 ((h.resources.mem _).mpr ⟨e', he', hr⟩)

/-- An event that is taken leaves the queue for a worker. -/
theorem dequeueEvent {now : ℤ} (h : s.Orderly) (hfree : s.jobs worker = none)
    (hfind : s.queue.find? (s.mayTake now) = some e) :
    (s.dequeueEvent worker now).Orderly := by
  obtain ⟨hmem, hother⟩ := h.mayTake_spec hfind
  have hlive (e' : Event) (he' : (s.dequeueEvent worker now).Live e') : s.Live e' := by
    rw [State.dequeueEvent, hfind] at he'
    rcases he' with he' | he'
    · exact .inl (mem_of_mem_eraseP he')
    · rcases (running_start hfree).mp he' with rfl | he'
      · exact .inl hmem
      · exact .inr he'
  have hdistinct : (e.key :: (s.queue.eraseP (s.mayTake now)).map Event.key).Nodup :=
    (((eraseP_perm hfind).map Event.key).nodup_iff).mp h.distinct
  rw [State.dequeueEvent, hfind] at hlive ⊢
  refine ⟨fun e' he' => h.clean e' (hlive e' he'),
    h.resources.start hfree e.action.resource_ne_nil,
    h.keys.start hfree (Action.key_ne_nil (h.clean e (.inl hmem))), ?_,
    (nodup_cons.mp hdistinct).2, fun e' he' => h.bounded e' (hlive e' he'), ?_⟩
  · intro w w' j j' hj hj' hr
    obtain ⟨rfl, heq⟩ | ⟨-, hold⟩ := update_job_iff.mp hj <;>
      obtain ⟨rfl, heq'⟩ | ⟨-, hold'⟩ := update_job_iff.mp hj'
    · rfl
    · -- the event just taken against one that was running
      cases heq
      exact absurd hr.symm (hother j'.event ⟨w', j'.phase, hold'⟩)
    · cases heq'
      exact absurd hr (hother j.event ⟨w, j.phase, hold⟩)
    · exact h.exclusive w w' j j' hold hold' hr
  · intro w e' p hj e'' he'' hk
    obtain ⟨-, heq⟩ | ⟨-, hj⟩ := update_job_iff.mp hj
    · cases heq
      exact absurd (mem_map.mpr ⟨e'', he'', hk⟩) (nodup_cons.mp hdistinct).1
    · exact h.newer w e' p hj e'' (mem_of_mem_eraseP he'') hk

/-- A worker is done with its event. -/
theorem finishEventKey (h : s.Orderly) (hjob : s.jobs worker = some ⟨e, phase⟩) :
    (s.finishEventKey worker e).Orderly := by
  -- nothing becomes live by this
  have hlive (e' : Event) (he' : (s.finishEventKey worker e).Live e') : s.Live e' := by
    rcases he' with he' | ⟨w, p, hj⟩
    · exact .inl he'
    · exact .inr ⟨w, p, job_of_finishEventKey hj⟩
  exact {
    clean := fun e' he' => h.clean e' (hlive e' he')
    resources := h.resources.finish h.exclusive hjob
    keys := h.keys.finish h.exclusive_keys hjob
    exclusive := fun w w' j j' hj hj' =>
      h.exclusive w w' j j' (job_of_finishEventKey hj) (job_of_finishEventKey hj')
    distinct := h.distinct
    bounded := fun e' he' => h.bounded e' (hlive e' he')
    newer := fun w e' p hj => h.newer w e' p (job_of_finishEventKey hj) }

end Orderly

/-! ## Steps -/

/-- What is asked of the world outside the scheduler: slot types are clean, no current `add` is
given up and no current `remove` is refused, and a slot keeps its association while its `add` is
retried. -/
def Undisturbed (config : Config) (s : State workers) : Step workers → Prop
  | .request action _ _ _ => action.Clean
  | .process worker outcome => ∀ e section_, s.jobs worker = some ⟨e, .valid⟩ →
      e.action = .remove section_ → outcome = .failed → s.isCurrent e = false
  | .retry worker association _ => ∀ e, s.jobs worker = some ⟨e, .failed⟩ →
      if e.attempts < config.addRetryMax then
        e.action.effect.resolve association = some e.action.effect
      else s.isCurrent e = false
  | _ => True

/-- All that a step can do to a state. -/
inductive Change (s : State workers) : Step workers → State workers → Prop
  | unchanged {step} (h : ∀ action delay association now,
      step = .request action delay association now → action.resolve association = none) :
      Change s step s
  | deduplicated {action delay association now resolved}
      (hresolve : action.resolve association = some resolved)
      (hkey : (s.withoutPendingAdds resolved).hasKey resolved 0 = true) :
      Change s (.request action delay association now) (s.withoutPendingAdds resolved)
  | queued {action delay association now resolved}
      (hresolve : action.resolve association = some resolved) (hclean : resolved.Clean)
      (hkey : (s.withoutPendingAdds resolved).hasKey resolved 0 = false) (notBefore : ℤ) :
      Change s (.request action delay association now)
        ((s.withoutPendingAdds resolved).push
          ⟨resolved, notBefore, 0, s.generation resolved.resource + 1⟩)
  | taken {worker now e} (hfree : s.jobs worker = none)
      (hfind : s.queue.find? (s.mayTake now) = some e) :
      Change s (.take worker now) (s.dequeueEvent worker now)
  /-- A worker goes on with its event; it starts to process only a current one. -/
  | advanced {step worker e phase phase'} (hstep : ∀ a d as n, step ≠ .request a d as n)
      (hjob : s.jobs worker = some ⟨e, phase⟩) (hphase : phase ≠ .spent) (hphase' : phase' ≠ .spent)
      (hvalid : phase' = .valid → s.isCurrent e = true) :
      Change s step (s.setPhase worker e phase')
  /-- A worker is through with an event without having done anything. -/
  | dropped {step worker e phase} (hstep : ∀ a d as n, step ≠ .request a d as n)
      (hjob : s.jobs worker = some ⟨e, phase⟩) (hphase : phase ≠ .spent)
      (hstale : s.isCurrent e = false) :
      Change s step (s.setPhase worker e .spent)
  | acted {step worker e phase} (hstep : ∀ a d as n, step ≠ .request a d as n)
      (hjob : s.jobs worker = some ⟨e, phase⟩) (hphase : phase ≠ .spent)
      (hvalid : phase = .valid ∨ s.isCurrent e = true) :
      Change s step (s.act worker e)
  | retried {step worker e} (hstep : ∀ a d as n, step ≠ .request a d as n)
      (hjob : s.jobs worker = some ⟨e, .failed⟩) (hadd : e.action.isAdd = true)
      (hcurrent : s.isCurrent e = true) (hkey : ∀ e' ∈ s.queue, e'.key ≠ e.key)
      (notBefore : ℤ) (attempts : ℕ) :
      Change s step ((s.push ⟨e.action, notBefore, attempts, e.generation⟩).setPhase worker e .spent)
  | finished {step worker e} (hstep : ∀ a d as n, step ≠ .request a d as n)
      (hjob : s.jobs worker = some ⟨e, .spent⟩) :
      Change s step (s.finishEventKey worker e)

variable (s : State workers) (action : Action)

@[simp] theorem withoutPendingAdds_jobs : (s.withoutPendingAdds action).jobs = s.jobs := by
  cases action <;> rfl

@[simp] theorem withoutPendingAdds_activeKeys :
    (s.withoutPendingAdds action).activeKeys = s.activeKeys := by
  cases action <;> rfl

@[simp] theorem withoutPendingAdds_generation :
    (s.withoutPendingAdds action).generation = s.generation := by
  cases action <;> rfl

@[simp] theorem withoutPendingAdds_effects : (s.withoutPendingAdds action).effects = s.effects := by
  cases action <;> rfl

variable {s : State workers}

variable {action : Action} {e : Event} {config : Config}

theorem mem_of_mem_withoutPendingAdds (h : e ∈ (s.withoutPendingAdds action).queue) :
    e ∈ s.queue := by
  cases action with
  | disable slot => exact (mem_filter.mp h).1
  | _ => exact h

theorem live_of_withoutPendingAdds (h : (s.withoutPendingAdds action).Live e) : s.Live e := by
  rcases h with h | h
  · exact .inl (mem_of_mem_withoutPendingAdds h)
  · exact .inr (by simpa using h)

theorem hasKey_retry {attempts : ℕ} :
    s.hasKey action (attempts + 1) = true ↔ ∃ e ∈ s.queue, e.key = action.key := by
  simp [hasKey]

/-- A failed `add` is queued again or is no longer current. -/
theorem retryAdd_change {worker : Fin workers} {association : Association} {now : ℤ} (h : s.Orderly)
    (hjob : s.jobs worker = some ⟨e, .failed⟩)
    (hundisturbed : Undisturbed config s (.retry worker association now)) :
    Change s (.retry worker association now) (s.retryAdd config worker e association now) := by
  have hclean := h.clean e (Orderly.live_of_job hjob)
  have hcase := hundisturbed e hjob
  unfold retryAdd
  cases haction : e.action with
  | add slot slotType =>
    have heffect : Action.add slot (slotType.take 15) = e.action := by
      rw [← Action.effect_of_clean hclean, haction]
      rfl
    dsimp only
    split_ifs at hcase ⊢ with hmax
    · rw [Action.effect_of_clean hclean] at hcase
      rw [heffect, enqueueEventEx, hcase]
      have hqueue : s.withoutPendingAdds e.action = s := by rw [haction]; rfl
      simp only [enqueue, hqueue, Event.resource]
      by_cases hkey : s.hasKey e.action (e.attempts + 1) = true
      · -- an event with the same key has been queued since, so this one is superseded
        rw [if_pos hkey]
        obtain ⟨e', he', hk⟩ := hasKey_retry.mp hkey
        have hlt := (h.newer worker e .failed hjob e' he' hk).2.2 (by decide)
        have hle := h.bounded e' (.inl he')
        rw [h.resource_eq (.inl he') (Orderly.live_of_job hjob) hk] at hle
        exact .dropped (by simp) hjob (by decide) (decide_eq_false (by omega))
      · rw [if_neg hkey]
        by_cases hcurrent : e.generation = s.generation e.action.resource
        · rw [if_neg (by simp [hcurrent])]
          simp only [Nat.add_eq_zero_iff, one_ne_zero, and_false, if_false, ← hcurrent]
          refine .retried (by simp) hjob (by rw [haction]; rfl) (decide_eq_true hcurrent)
            (fun e' he' hk => hkey ?_) _ _
          exact hasKey_retry.mpr ⟨e', he', hk⟩
        · rw [if_pos (by simp [hcurrent])]
          exact .dropped (by simp) hjob (by decide) (decide_eq_false hcurrent)
    · exact .dropped (by simp) hjob (by decide) hcase
  | _ => exact .unchanged (by simp)

/-- A request is answered from the queue, or its event is queued as the newest of its section. -/
theorem request_change {delay : ℤ} {association : Association} {now : ℤ}
    (hundisturbed : Undisturbed config s (.request action delay association now)) :
    Change s (.request action delay association now)
      (s.enqueueEventEx none action delay 0 association now).1 := by
  unfold enqueueEventEx
  cases hresolve : action.resolve association with
  | none => exact .unchanged (by rintro _ _ _ _ ⟨⟩; exact hresolve)
  | some resolved =>
    simp only [enqueue]
    by_cases hkey : (s.withoutPendingAdds resolved).hasKey resolved 0 = true
    · rw [if_pos hkey]
      exact .deduplicated hresolve hkey
    · -- a request has no attempts behind it, so only its key can make it a duplicate
      rw [if_neg hkey, if_neg (by simp)]
      have hclean := Action.Clean.resolve hundisturbed hresolve
      simpa [Event.resource] using
        Change.queued hresolve hclean (Bool.eq_false_iff.mpr hkey) (now + max delay 0)

/-- What comes of an event that was found current. -/
theorem processEvent_change {worker : Fin workers} {outcome : Outcome}
    (hjob : s.jobs worker = some ⟨e, .valid⟩)
    (hundisturbed : Undisturbed config s (.process worker outcome)) :
    Change s (.process worker outcome) (s.processEvent worker e outcome) := by
  have hact : Change s (.process worker outcome) (s.act worker e) :=
    .acted (by simp) hjob (by decide) (.inl rfl)
  unfold processEvent
  split
  · exact .advanced (by simp) hjob (by decide) (by decide) nofun
  · exact hact
  · exact .advanced (by simp) hjob (by decide) (by decide) nofun
  · rename_i section_ haction
    exact .dropped (by simp) hjob (by decide) (hundisturbed e section_ hjob haction rfl)
  · exact hact

/-- **Changes**: what a step does to an orderly state is one of the changes above. -/
theorem step_change (h : s.Orderly) {step : Step workers}
    (hundisturbed : Undisturbed config s step) : Change s step (s.step config step) := by
  cases step with
  | request action delay association now => exact request_change hundisturbed
  | take worker now =>
    simp only [State.step]
    split
    · rename_i hfree
      -- the worker is free and takes the first event that is due and whose section is not being
      -- worked on
      cases hfind : s.queue.find? (s.mayTake now) with
      | none =>
        rw [dequeueEvent, hfind]
        exact .unchanged (by simp)
      | some e => exact .taken hfree hfind
    · exact .unchanged (by simp)
  | check worker =>
    simp only [State.step]
    split
    · rename_i e hjob
      -- a newer request for the section makes the event stale
      by_cases hcurrent : s.isCurrent e = true
      · rw [if_pos hcurrent]
        exact .advanced (by simp) hjob (by decide) (by decide) fun _ => hcurrent
      · rw [if_neg hcurrent]
        exact .dropped (by simp) hjob (by decide) (Bool.eq_false_iff.mpr hcurrent)
    · exact .unchanged (by simp)
  | process worker outcome =>
    simp only [State.step]
    split
    · rename_i e hjob
      exact processEvent_change hjob hundisturbed
    · exact .unchanged (by simp)
  | commit worker =>
    simp only [State.step]
    split
    · rename_i e hjob
      -- the configuration is written only when the event is still current
      unfold commitAdd
      split
      · exact .acted (by simp) hjob (by decide) (.inr ‹_›)
      · exact .dropped (by simp) hjob (by decide) (Bool.eq_false_iff.mpr ‹_›)
    · exact .unchanged (by simp)
  | retry worker association now =>
    simp only [State.step]
    split
    · rename_i e hjob
      -- this is where a failed `add` enters the queue once more
      exact retryAdd_change h hjob hundisturbed
    · exact .unchanged (by simp)
  | finish worker =>
    simp only [State.step]
    split
    · rename_i e hjob
      exact .finished (by simp) hjob
    · exact .unchanged (by simp)

theorem hasKey_request :
    s.hasKey action 0 = true ↔ (∃ e ∈ s.queue, e.key = action.key) ∨
      (action.isAdd = false ∧ action.key ∈ s.activeKeys) := by
  simp [hasKey]

/-- Every step keeps the order. -/
theorem Orderly.step (h : s.Orderly) {step : Step workers}
    (hundisturbed : Undisturbed config s step) : (s.step config step).Orderly := by
  have hchange := step_change h hundisturbed
  generalize s.step config step = s' at hchange
  cases hchange with
  | unchanged _ => exact h
  | @deduplicated _ _ _ _ resolved _ _ => exact h.withoutPendingAdds resolved
  | @queued _ _ _ _ resolved hresolve hclean hkey notBefore =>
    have hpending := h.withoutPendingAdds resolved
    have hkey' := mt hasKey_request.mpr (Bool.eq_false_iff.mp hkey)
    push Not at hkey'
    obtain ⟨hqueue, hactive⟩ := hkey'
    refine hpending.push hclean (fun e' he' => hqueue e' he') (by simp [Event.resource])
      fun w e' phase hjob hk => ?_
    -- the running event has the key of the request, so the request is an `add`
    have hlive : (s.withoutPendingAdds resolved).Live e' := Orderly.live_of_job hjob
    have haction : resolved = e'.action := Action.key_injective hclean (hpending.clean e' hlive) hk
    have hle := hpending.bounded e' hlive
    simp only [withoutPendingAdds_generation, Event.resource, ← haction] at hle
    refine ⟨?_, by simp only; omega, fun _ => by simp only; omega⟩
    by_contra hadd
    refine hactive (by rw [haction]; exact Bool.eq_false_iff.mpr hadd) ?_
    exact (hpending.keys.mem _).mpr ⟨e', ⟨w, phase, hjob⟩, hk.symm⟩
  | taken hfree hfind => exact h.dequeueEvent hfree hfind
  | advanced _ hjob hphase _ _ => exact h.setPhase hjob hphase _
  | dropped _ hjob hphase _ => exact h.setPhase hjob hphase _
  | acted _ hjob hphase _ => exact h.act hjob hphase
  | @retried _ worker e _ hjob hadd hcurrent hkey notBefore attempts =>
    -- the worker is through first, then its event returns to the queue
    have hspent := h.setPhase hjob (by decide) .spent
    have hgeneration : e.generation = s.generation e.resource := of_decide_eq_true hcurrent
    have hlive := Orderly.live_of_job hjob
    refine hspent.push (e := ⟨e.action, notBefore, attempts, e.generation⟩) (h.clean e hlive) hkey
      hgeneration.ge fun w e' phase hj hk => ?_
    obtain ⟨rfl, heq⟩ | ⟨hw, hj⟩ := update_job_iff.mp hj
    · cases heq
      exact ⟨hadd, le_rfl, fun hphase => absurd rfl hphase⟩
    · exact absurd (h.exclusive_keys w worker _ _ hj hjob hk.symm) hw
  | finished _ hjob => exact h.finishEventKey hjob

end State

end QModem.Scan
