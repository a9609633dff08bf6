import QModem.Voip.History
import QModem.Voip.Polling

/-!
# The Revision of a Call

The revision tells users of the call that something has changed.  It is raised whenever the state
changes, and never lowered.  Lines that are ignored leave it alone.  A list of calls that only
confirms what is known should leave it alone, too, but a record without a number is announced
before a record has counted, and it is believed afterwards.

## Main results

- `Context.raises_operate`: an operation does not lower the revision, and raises it with the state
- `Context.unrevised_iff`: which lists leave the revision alone
- `Context.revision_disciplined_iff`: the runs in which the revision is only raised when it should
  be
-/

namespace QModem.Voip

open Lib List
open At (Text Correlation)

/-! ## Operations -/

namespace Call

variable {env : Surroundings} {c c' c'' : Call}

/-- The revision is not lowered, and a new state has a new revision. -/
structure Raises (c c' : Call) : Prop where
  revision : c.revision ≤ c'.revision
  moved : c'.state ≠ c.state → c.revision < c'.revision

theorem Raises.of_lt (h : c.revision < c'.revision) : c.Raises c' := ⟨h.le, fun _ => h⟩

theorem Raises.of_eq (hrevision : c'.revision = c.revision) (hstate : c'.state = c.state) :
    c.Raises c' := ⟨hrevision.ge, fun h => absurd hstate h⟩

theorem Raises.trans (h : c.Raises c') (h' : c'.Raises c'') : c.Raises c'' where
  revision := h.revision.trans h'.revision
  moved hne := by
    by_cases hsame : c'.state = c.state
    · exact h.revision.trans_lt (h'.moved (hsame ▸ hne))
    · exact (h.moved hsame).trans_le h'.revision

theorem raises_moved (env : Surroundings) (c : Call) (r : Clcc) : c.Raises (c.moved env r) := by
  obtain ⟨_, _, _, _, hreported, -⟩ := reported_eq env c r.status
  unfold moved
  rw [hreported]
  split_ifs with hterminating hmoved
  · exact .of_lt (Nat.lt_succ_self _)
  · exact .of_lt (Nat.lt_succ_self _)
  · exact .of_eq rfl (not_not.mp hmoved)

/-- No act lowers the revision. -/
theorem raises_act (env : Surroundings) (c : Call) (a : Act) : c.Raises (c.act env a) := by
  cases a with
  | rest => exact .of_eq rfl rfl
  | answer endpoint =>
    obtain ⟨_, _, _, _, (hactive : markActive _ _ = _), -⟩ :=
      reported_eq env { c with answerOwner := endpoint } 0
    rw [act, hactive]
    exact .of_lt (Nat.lt_succ_self _)
  | restart => exact .of_lt (Nat.lt_add_of_pos_right Nat.two_pos)
  | name line =>
    obtain ⟨_, _, hclip⟩ := clipNumber_eq c line
    rw [act, hclip]
    exact .of_lt (Nat.lt_succ_self _)
  | ring =>
    rw [act]
    unfold ringing beginCall
    split_ifs <;> exact .of_lt (Nat.lt_succ_self _)
  | report line r =>
    obtain ⟨_, _, _, _, _, hintroduced⟩ := introduced_eq env c line r
    have hraises := raises_moved env ((c.beginIncoming env r).named line r) r
    refine Raises.trans ?_ hraises
    rw [hintroduced]
    exact .of_eq rfl rfl
  -- all others touch the call
  | _ => exact .of_lt (Nat.lt_succ_self _)

end Call

namespace Context

variable {env : Surroundings} {x : Context}

/-- An operation does not lower the revision, and a new state has a new one. -/
theorem raises_operate (env : Surroundings) (x : Context) (operation : Operation) :
    x.call.Raises (x.operate env operation).1.call := by
  have hannounced := announced_operate env x operation
  obtain ⟨state, revision, completed, hbefore, -, hrevision, hmoved, -⟩ := before_call env x operation
  obtain ⟨_, _, hcall⟩ := hannounced.call
  -- an operation is a gap, then an act, and then what is announced
  have hfirst : x.call.Raises (x.before env operation).phone.call := by
    rw [hbefore]
    exact ⟨hrevision, hmoved⟩
  have hthen := Call.raises_act env (x.before env operation).phone.call (x.call.actOf operation)
  have hlast : ((x.before env operation).phone.call.act env (x.call.actOf operation)).Raises
      (x.operate env operation).1.phone.call := by
    refine ⟨hannounced.revision, fun h => absurd ?_ h⟩
    rw [hcall]
    rfl
  have hall := (hfirst.trans hthen).trans hlast
  exact ⟨hall.revision, hall.moved⟩

end Context

/-! ## Lists of calls -/

/-- The record of a call that is no data call. -/
def Reply.voice (reply : Reply) : Option Clcc := (clccStatus reply.raw).filter (·.mode ≠ 1)

theorem Reply.voice_eq_some {reply : Reply} {r : Clcc} (h : reply.voice = some r) :
    clccStatus reply.raw = some r ∧ r.mode ≠ 1 := by
  simpa [voice, Option.filter_eq_some_iff] using h

namespace Context

/-- While the answer to a poll is arriving, the call is as it was before. -/
structure Unrevised (c : Call) (commandId misses releases : ℕ) (waiting : Bool) (x : Context) :
    Prop extends x.Awaits commandId misses releases waiting where
  revision : x.call.revision = c.revision
  state : x.call.state = c.state
  answerOwner : x.call.answerOwner = c.answerOwner

variable {x : Context} {c : Call} {reply : Reply} {r : Clcc} {commandId misses n : ℕ} {waiting : Bool}

theorem Unrevised.heard_eq (h : x.Unrevised c commandId misses n waiting) (status : ℤ) :
    x.call.heard status = c.heard status := by
  unfold Call.heard
  rw [h.answerOwner, h.state]

theorem unrevised_accepted (reply : Reply) (correlation : Correlation)
    (h : x.Unrevised c commandId misses n waiting) :
    (x.accepted reply correlation commandId).Unrevised c commandId misses n waiting :=
  ⟨awaits_accepted h.toAwaits reply correlation, h.revision, h.state, h.answerOwner⟩

section

variable (hid : commandId ≠ 0) (hrecord : hasPrefix (ascii "+CLCC:") reply.raw = true)

include hid hrecord

/-- A line that is no record of a voice call changes nothing. -/
theorem unrevised_of_not_voice (hvoice : reply.voice = none)
    (h : x.Unrevised c commandId misses n waiting) :
    (x.exchange (.line reply .response commandId)).Unrevised c commandId misses n waiting := by
  have hawaits := awaits_record h.toAwaits hid hrecord
  rw [exchange_record h.toAwaits hrecord] at hawaits ⊢
  unfold Reply.counts at hawaits
  have haccepted := unrevised_accepted reply .response h
  cases hstatus : clccStatus reply.raw with
  | none => exact haccepted
  | some r =>
    -- a data call is passed over
    have hmode : r.mode = 1 := by simpa [Reply.voice, hstatus] using hvoice
    simp only [hstatus, hmode, ne_eq, not_true_eq_false, decide_false, Bool.false_and, Bool.not_false,
      Bool.and_true] at hawaits
    have hbelieves : (x.accepted reply .response commandId).call.believes
        (x.call.next reply .response commandId) r = false := by
      simp [Call.believes, hmode]
    obtain ⟨hpassed, -⟩ := passed_record reply.env hbelieves
    exact ⟨hawaits, (hpassed.revision hmode).trans h.revision, hpassed.state.trans h.state,
      hpassed.answerOwner.trans h.answerOwner⟩

/-- A record of a voice call without a number is announced while the answer is outstanding. -/
theorem revised_of_quarantined (hvoice : reply.voice = some r) (hempty : r.emptyNumber = true)
    (h : x.Unrevised c commandId misses n true) :
    c.revision < (x.exchange (.line reply .response commandId)).call.revision := by
  obtain ⟨hstatus, hmode⟩ := Reply.voice_eq_some hvoice
  have haccepted := unrevised_accepted reply .response h
  have hcorrelated := Call.correlated_next x.call reply hid
  have hbelieves := believes_iff_counts (r := r) haccepted.toAwaits hcorrelated rfl
  rw [hempty, Bool.not_true, Bool.and_false] at hbelieves
  obtain ⟨hpassed, -⟩ := passed_record reply.env hbelieves
  rw [exchange_record h.toAwaits hrecord, hstatus, ← h.revision]
  exact hpassed.quarantined hmode hcorrelated

/-- Any other record of a voice call is believed: it leaves the revision alone exactly if it tells
the state that is known. -/
theorem unrevised_of_believed (hvoice : reply.voice = some r)
    (hnumber : waiting = true → r.emptyNumber = false)
    (h : x.Unrevised c commandId misses n waiting) :
    (c.heard r.status = c.state →
        (x.exchange (.line reply .response commandId)).Unrevised c commandId misses n false) ∧
      (c.heard r.status ≠ c.state →
        c.revision < (x.exchange (.line reply .response commandId)).call.revision) := by
  obtain ⟨hstatus, hmode⟩ := Reply.voice_eq_some hvoice
  have haccepted := unrevised_accepted reply .response h
  have hbelieves : (x.accepted reply .response commandId).call.believes
      (x.call.next reply .response commandId) r = true := by
    -- after the first record the others are believed without a check
    cases waiting with
    | false => simp [Call.believes, hmode, haccepted.pending]
    | true =>
      rw [believes_iff_counts haccepted.toAwaits (Call.correlated_next x.call reply hid) rfl,
        hnumber rfl]
      simp [hmode]
  have hawaits := awaits_believed reply.env haccepted.toAwaits hbelieves
  obtain ⟨hheard, -⟩ := heard_record reply.env hbelieves haccepted.not_terminating
  have htold := haccepted.heard_eq r.status
  rw [exchange_record h.toAwaits hrecord, hstatus]
  refine ⟨fun hsame => ?_, fun hmoved => ?_⟩
  · rw [← htold, ← haccepted.state] at hsame
    exact ⟨hawaits, (hheard.revision hsame).trans haccepted.revision,
      (hheard.state.trans hsame).trans haccepted.state, hheard.answerOwner.trans haccepted.answerOwner⟩
  · rw [← htold, ← haccepted.state] at hmoved
    exact haccepted.revision ▸ hheard.moved hmoved

end

/-- The end of a list gives a live call a new revision. -/
theorem reconcileOk_revision (env : Surroundings) (hlive : x.call.state.live = true) :
    x.call.revision < (x.reconcileOk env).call.revision := by
  by_cases hmisses : x.call.reconcileVoiceMisses = 0
  · rw [reconcileOk_of_first env hlive hmisses]
    obtain ⟨_, hcall⟩ := notify_call env (x.withCall x.call.missed.settled) .reconcileInconclusive
    rw [hcall]
    exact Nat.lt_succ_self _
  · obtain ⟨event, hsecond⟩ := reconcileOk_of_second env hlive hmisses
    obtain ⟨_, hcall⟩ := notify_call env (x.withCall (x.call.missed.clear env).settled) event
    rw [hsecond, hcall]
    exact (Nat.lt_succ_self _).trans (Nat.lt_succ_self _)

/-- After an answer in which a record has counted `OK` changes nothing; otherwise it is announced.
-/
theorem revision_ok_iff (hid : commandId ≠ 0) (hok : reply.raw = ascii "OK")
    (h : x.Unrevised c commandId misses n waiting) :
    (x.exchange (.line reply .terminal commandId)).call.revision = c.revision ↔ waiting = false := by
  have haccepted := unrevised_accepted reply .terminal h
  dsimp only [exchange]
  rw [operate_next h.enabled h.port, handle_of_ok _ _ hok, ← haccepted.revision]
  -- a record has counted, or the call is missing
  cases waiting with
  | false =>
    have hends : (x.accepted reply .terminal commandId).call.endsReconcile
        (x.call.next reply .terminal commandId) = false := by
      simp [Call.endsReconcile, haccepted.pending]
    rw [hends]
    exact iff_of_true rfl rfl
  | true =>
    rw [if_pos (haccepted.toAwaits.endsReconcile hid rfl rfl)]
    exact iff_of_false (reconcileOk_revision reply.env haccepted.live).ne' (by decide)

/-- A list leaves the revision alone exactly if all its records of voice calls tell the state that
is known, and the first of them has a number. -/
theorem unrevised_iff (hid : commandId ≠ 0) (replies : List Reply)
    (hrecord : ∀ reply ∈ replies, hasPrefix (ascii "+CLCC:") reply.raw = true)
    (hok : reply.raw = ascii "OK") (h : x.Unrevised c commandId misses n waiting) :
    Throughout exchange (fun y => y.call.revision = c.revision) x
        (replies.map (.line · .response commandId) ++ [.line reply .terminal commandId]) ↔
      (∀ r ∈ replies.filterMap Reply.voice, c.heard r.status = c.state) ∧
        (waiting = true → ∃ first rest, replies.filterMap Reply.voice = first :: rest ∧
          first.emptyNumber = false) := by
  -- `waiting` turns false at the first record that is believed; the rest of the list is judged by
  -- its states alone
  induction replies generalizing x waiting with
  | nil =>
    refine (and_iff_right h.revision).trans ((revision_ok_iff hid hok h).trans ?_)
    cases waiting <;> simp
  | cons record replies ih =>
    have hhere := hrecord record mem_cons_self
    have hothers := fun r hr => hrecord r (mem_cons_of_mem _ hr)
    rw [map_cons, cons_append]
    refine (and_iff_right h.revision).trans ?_
    cases hvoice : record.voice with
    | none =>
      rw [filterMap_cons_none hvoice]
      exact ih hothers (unrevised_of_not_voice hid hhere hvoice h)
    | some r =>
      rw [filterMap_cons_some hvoice]
      -- the first record of a voice call has no number: the quarantine raises the revision
      by_cases hphantom : waiting = true ∧ r.emptyNumber = true
      · obtain ⟨rfl, hempty⟩ := hphantom
        have hrevised := revised_of_quarantined hid hhere hvoice hempty h
        refine iff_of_false (fun hall => hrevised.ne' hall.first) fun ⟨_, hfirst⟩ => ?_
        obtain ⟨_, _, heq, hnumber⟩ := hfirst rfl
        cases heq
        exact absurd (hempty.symm.trans hnumber) Bool.noConfusion
      · have hnumber : waiting = true → r.emptyNumber = false := by simpa using hphantom
        obtain ⟨hkept, hrevised⟩ := unrevised_of_believed hid hhere hvoice hnumber h
        by_cases hsame : c.heard r.status = c.state
        · rw [ih hothers (hkept hsame), forall_mem_cons, and_iff_right hsame]
          exact and_congr_right fun _ => iff_of_true nofun fun hwaiting => ⟨r, _, rfl, hnumber hwaiting⟩
        · refine iff_of_false (fun hall => (hrevised hsame).ne' hall.first) fun ⟨hall, _⟩ => ?_
          exact hsame (hall r mem_cons_self)

end Context

/-! ## Runs -/

/-- An operation, or a poll with its answer. -/
inductive RevisionEvent where
  | operation (env : Surroundings) (operation : Operation)
  | poll (p : Poll)

namespace Context

/-- The line is ignored: it is of another port, or it is not newer than the last one. -/
def Ignores (x : Context) (l : Line) : Prop :=
  l.port ≠ x.call.atPort ∨ x.call.restartEpoch ≠ 0 ∧ (l.epoch < x.call.restartEpoch ∨
    l.epoch = x.call.restartEpoch ∧ l.sequence ≤ x.call.sequence)

/-- The poll of a live call is answered by a list that tells the state of the call, with which every
record that has a number agrees. -/
structure Confirms (x : Context) (p : Poll) : Prop where
  ready : x.Ready x.releases
  told : ∃ r ∈ p.records.filterMap Reply.voice, r.mode = 0 ∧ 0 ≤ r.status ∧ r.status ≤ 5 ∧
    x.call.heard r.status = x.call.state
  agreed : ∀ r ∈ p.records.filterMap Reply.voice, r.emptyNumber = false →
    x.call.heard r.status = x.call.state

def revise (x : Context) : RevisionEvent → Context
  | .operation env operation => (x.operate env operation).1
  | .poll p => x.poll p

/-- The revision is raised with the state, it is never lowered, and it stays when nothing has
changed. -/
def Disciplined (x : Context) : RevisionEvent → Prop
  | .operation env operation =>
    x.call.Raises (x.operate env operation).1.call ∧
      ∀ l, operation = .line l → x.Ignores l →
        (x.operate env operation).1.call.revision = x.call.revision
  | .poll p =>
    x.Confirms p → Throughout exchange (fun y => y.call.revision = x.call.revision) x p.exchanges

/-- In a list that confirms the call, a record with a number comes before those without one, which
tell the same state. -/
def Orderly (x : Context) : RevisionEvent → Prop
  | .operation _ _ => True
  | .poll p =>
    x.Confirms p →
      (∀ r ∈ p.records.filterMap Reply.voice, r.emptyNumber = true →
        x.call.heard r.status = x.call.state) ∧
        ∃ first rest, p.records.filterMap Reply.voice = first :: rest ∧ first.emptyNumber = false

variable {x : Context}

theorem operate_of_ignored {env : Surroundings} {l : Line} (h : x.Ignores l) :
    (x.operate env (.line l)).1.call = x.call := by
  have htakes : x.call.takes l = false := by
    unfold Call.takes Call.hears
    obtain hport | ⟨hseen, hepoch | ⟨hepoch, hsequence⟩⟩ := h
    · simp [hport.symm]
    · simp [hseen, hepoch]
    · simp [hseen, hepoch, hsequence]
  rw [operate_of_not_taken env htakes]

theorem disciplined_operation (env : Surroundings) (operation : Operation) :
    x.Disciplined (.operation env operation) := by
  refine ⟨raises_operate env x operation, ?_⟩
  rintro l rfl hignored
  rw [operate_of_ignored hignored]

/-- The poll itself changes nothing. -/
theorem poll_keeps (x : Context) (env : Surroundings) :
    (x.exchange (.poll env)).call.revision = x.call.revision ∧
      (x.exchange (.poll env)).call.state = x.call.state ∧
      (x.exchange (.poll env)).call.answerOwner = x.call.answerOwner := by
  have hphone : (x.exchange (.poll env)).phone = x.phone :=
    pollActive_phone env { x with commandFailed := false }
  have hcall : (x.exchange (.poll env)).call.bare = x.call.bare := congrArg Phone.call hphone
  have hrevision := congrArg Call.revision hcall
  have hstate := congrArg Call.state hcall
  have hanswerOwner := congrArg Call.answerOwner hcall
  exact ⟨hrevision, hstate, hanswerOwner⟩

/-- A poll is disciplined exactly if its list is in order. -/
theorem disciplined_poll_iff (p : Poll) : x.Disciplined (.poll p) ↔ x.Orderly (.poll p) := by
  refine imp_congr_right fun hconfirms => ?_
  have hawaits := awaits_poll p hconfirms.ready
  have hpoll := poll_keeps x p.env
  refine (and_iff_right rfl).trans ((unrevised_iff p.numbered p.records p.isRecord p.isOk
    ⟨hawaits, hpoll.1, hpoll.2.1, hpoll.2.2⟩).trans ?_)
  -- the records with a number agree anyway, since the list confirms the call
  refine and_congr ⟨fun hall r hr _ => hall r hr, fun hall r hr => ?_⟩ (forall_prop_of_true rfl)
  cases hnumber : r.emptyNumber with
  | true => exact hall r hr hnumber
  | false => exact hconfirms.agreed r hr hnumber

/-- **The revision tells what has changed, and only that**, exactly in the runs in which every list
that confirms a call has a record with a number before those without one, and these tell the same
state. -/
theorem revision_disciplined_iff (x : Context) (events : List RevisionEvent) :
    Along revise Disciplined x events ↔ Along revise Orderly x events := by
  apply along_iff_along_of_step (p := fun _ => True) trivial
  · intro x event _
    cases event with
    | operation env operation => exact iff_of_true (disciplined_operation env operation) trivial
    | poll p => exact disciplined_poll_iff p
  · exact fun _ _ _ _ => trivial

end Context

/-- The modem lists a call without a number before the one that rings. -/
def Poll.phantom : Poll :=
  .listing 1 Nat.one_ne_zero ["+CLCC: 2,1,4,0,0,\"\",128", "+CLCC: 1,1,4,0,0,\"10086\",129"]
    (by decide) ⟨_, List.mem_cons_self, ⟨1, 4, 0, true⟩, by decide⟩

namespace Context

/-- A call rings and is polled. -/
def ringingPoll : List RevisionEvent :=
  [.setEnabled true, .selectAtPort (ascii "/dev/ttyUSB2"), .line (.ofTty 1 "RING" .idle 0)].map
    (.operation (.working (ascii "/dev/ttyUSB2"))) ++ [.poll .phantom]

/-- The list has the call with its state, and still raises the revision. -/
theorem ringingPoll_not_disciplined : ¬ Along revise Disciplined initial ringingPoll := by
  intro h
  obtain ⟨-, -, -, hpoll, -⟩ := h
  have hconfirms : Confirms (run revise initial (ringingPoll.take 3)) .phantom :=
    ⟨⟨by decide, by decide, by decide, rfl⟩, by decide +kernel, by decide +kernel⟩
  exact absurd (hpoll hconfirms).last (by decide +kernel)

end Context

end QModem.Voip
