import QModem.Voip.Acts

/-!
# The List of Calls

`AT+CLCC` asks the modem for its calls.  It answers with a record for each call and with `OK`.  The
daemon keeps whether an answer is outstanding, the number of its command once a line has told it,
and how many lists in a row have missed the call.

## Main results

- `Context.heard_report`: what a record that is believed makes of the call
- `Context.passed_record`: what is left of a record that is not believed
- `Context.operate_next`: the next line of the selected port is handled at once
-/

namespace QModem.Voip

open Lib Call
open At (Text Correlation)

/-! ## Records -/

namespace Call

variable {env : Surroundings} {c : Call} {l : Line} {r : Clcc}

/-- The state of a call for which a record has the status. -/
def heard (c : Call) (status : ℤ) : CallState :=
  if status = 0 then .active
  else if status = 1 || status = 2 then .outgoingSetup
  else if status = 3 then .earlyMedia
  else if status = 4 || status = 5 then
    if c.answerOwner = .none || c.state ≠ .active then .incomingRinging else c.state
  else c.state

theorem state_reported (status : ℤ) : (c.reported env status).state = c.heard status := by
  unfold reported heard
  split_ifs <;> rfl

theorem live_heard (h : c.state.live = true) (status : ℤ) : (c.heard status).live = true := by
  unfold heard
  split_ifs <;> first | rfl | exact h

/-- A record that is believed may tell who is calling and that the call has begun. -/
theorem introduced_eq (env : Surroundings) (c : Call) (line : Text) (r : Clcc) :
    ∃ origin endpoint startedAt number callerIdWithheld,
      (c.beginIncoming env r).named line r =
        { c with origin, endpoint, startedAt, number, callerIdWithheld } := by
  obtain ⟨_, _, _, hbegin, -⟩ := beginIncoming_eq env c r
  obtain ⟨_, _, hnamed⟩ := named_eq (c.beginIncoming env r) line r
  rw [hnamed, hbegin]
  exact ⟨_, _, _, _, _, rfl⟩

/-- What every record leaves as it is. -/
structure Keeps (c c' : Call) : Prop where
  enabled : c'.enabled = c.enabled
  answerOwner : c'.answerOwner = c.answerOwner
  position : c'.position = c.position

/-- What a record that is believed makes of a call that is not being hung up. -/
structure Heard (status : ℤ) (c c' : Call) : Prop extends c.Keeps c' where
  state : c'.state = c.heard status
  pending : c'.reconcilePending = false
  misses : c'.reconcileVoiceMisses = 0
  revision : c.heard status = c.state → c'.revision = c.revision
  moved : c.heard status ≠ c.state → c.revision < c'.revision

/-- What is left of a record that is not believed. -/
structure Passed (l : Line) (r : Clcc) (c c' : Call) : Prop extends c.Keeps c' where
  state : c'.state = c.state
  pending : c'.reconcilePending = c.reconcilePending
  misses : c'.reconcileVoiceMisses = c.reconcileVoiceMisses
  commandId : c'.reconcileCommandId = c.reconcileCommandId ∨
    c.reconcileCommandId = 0 ∧ c'.reconcileCommandId = l.commandId
  revision : r.mode = 1 → c'.revision = c.revision
  quarantined : r.mode ≠ 1 → l.correlated = true → c.revision < c'.revision

theorem correlate_eq (c : Call) (l : Line) :
    ∃ id, c.correlate l = { c with reconcileCommandId := id } ∧
      (id = c.reconcileCommandId ∨ c.reconcileCommandId = 0 ∧ id = l.commandId) := by
  unfold correlate
  split
  · rename_i hzero
    exact ⟨_, rfl, .inr ⟨hzero, rfl⟩⟩
  · exact ⟨_, rfl, .inl rfl⟩

theorem Heard.of_correlate {c' : Call} {status : ℤ} (h : (c.correlate l).Heard status c') :
    c.Heard status c' := by
  obtain ⟨_, hcorrelate, -⟩ := correlate_eq c l
  rw [hcorrelate] at h
  exact ⟨⟨h.enabled, h.answerOwner, h.position⟩, h.state, h.pending, h.misses, h.revision, h.moved⟩

end Call

namespace Context

variable {env : Surroundings} {x : Context} {l : Line} {r : Clcc}

/-- How often the end of a call was published. -/
def releases (x : Context) : ℕ := x.outputs.count (.event .release)

/-- How often the list of calls was asked for. -/
def listRequests (x : Context) : ℕ := x.outputs.count (.command AtCommand.listCalls.text)

theorem notify_outputs (env : Surroundings) (x : Context) (event : CallEvent) :
    (x.notify env event).outputs = x.outputs ++ [.event event] :=
  publishEvent_outputs env (x.withCall x.call.touch) event

theorem notify_releases {event : CallEvent} (h : event ≠ .release) :
    (x.notify env event).releases = x.releases := by
  unfold releases
  rw [notify_outputs, List.count_append, List.count_singleton]
  simp [h]

/-- A change of state is announced, and so is ringing. -/
theorem heard_announced {c : Call} {before : CallState} {status : ℤ} (env : Surroundings)
    (hkeeps : c.Keeps x.call) (hstate : x.call.state = c.heard status) (hbefore : before = c.state)
    (hpending : x.call.reconcilePending = false) (hmisses : x.call.reconcileVoiceMisses = 0)
    (hrevision : x.call.revision = c.revision) :
    let y := if x.call.state ≠ before then x.notify env .callState else x
    let z := if before = .idle && y.call.state = .incomingRinging then y.notify env .ring else y
    c.Heard status z.call ∧ z.releases = x.releases := by
  intro y z
  by_cases hmoved : c.heard status = c.state
  · -- the state is the one before, and nothing is announced
    have hsame : x.call.state = before := hstate.trans (hmoved.trans hbefore.symm)
    have hy : y = x := if_neg (not_not.mpr hsame)
    have hz : z = x := by
      refine (if_neg ?_).trans hy
      rw [hy, hsame]
      simp only [Bool.and_eq_true, decide_eq_true_eq, not_and]
      exact fun h h' => absurd (h.symm.trans h') nofun
    rw [hz]
    exact ⟨⟨hkeeps, hstate, hpending, hmisses, fun _ => hrevision, absurd hmoved⟩, rfl⟩
  · have hy : y = x.notify env .callState :=
      if_pos fun h => hmoved (hstate.symm.trans (h.trans hbefore))
    obtain ⟨_, hcall⟩ := notify_call env x .callState
    have hheard : c.Heard status y.call := by
      rw [hy, hcall]
      exact ⟨⟨hkeeps.enabled, hkeeps.answerOwner, hkeeps.position⟩, hstate, hpending, hmisses,
        fun h => absurd h hmoved, fun _ => hrevision ▸ Nat.lt_succ_self _⟩
    have hreleases : y.releases = x.releases := hy ▸ notify_releases (by decide)
    unfold z
    split
    · obtain ⟨_, hcall⟩ := notify_call env y .ring
      refine ⟨?_, (notify_releases (by decide)).trans hreleases⟩
      rw [hcall]
      exact ⟨⟨hheard.enabled, hheard.answerOwner, hheard.position⟩, hheard.state, hheard.pending,
        hheard.misses, fun h => absurd h hmoved, fun _ => (hheard.moved hmoved).trans (Nat.lt_succ_self _)⟩
    · exact ⟨hheard, hreleases⟩

variable (env)

/-- A record that is believed tells the state of the call. -/
theorem heard_report (l : Line) (r : Clcc) (hterminating : x.call.state ≠ .terminating) :
    x.call.Heard r.status (x.report env l r).call ∧ (x.report env l r).releases = x.releases := by
  unfold report
  extract_lets call₁ call₂ call₃ before call₄ y₁ y₂
  obtain ⟨_, _, _, _, _, (hcall : call₂ = _)⟩ := introduced_eq env x.call l.raw r
  obtain ⟨_, _, _, _, hreported, -⟩ := reported_eq env call₄ r.status
  have hbefore : before = x.call.state := by
    show call₂.state = _
    rw [hcall]
  have hstate : (call₄.reported env r.status).state = x.call.heard r.status := by
    rw [state_reported]
    show call₂.heard r.status = _
    rw [hcall]
    rfl
  have hkeeps : x.call.Keeps call₂ ∧ call₂.revision = x.call.revision := by
    rw [hcall]
    exact ⟨⟨rfl, rfl, rfl⟩, rfl⟩
  -- the record only names the call before its state is looked at
  rw [if_neg (by rw [show call₂.state = _ from hbefore]; exact hterminating)]
  have hy₁ : x.call.Keeps y₁.call ∧ y₁.call.reconcilePending = false ∧
      y₁.call.reconcileVoiceMisses = 0 ∧ y₁.call.revision = x.call.revision := by
    show x.call.Keeps (call₄.reported env r.status) ∧ _
    unfold y₁ withCall
    rw [hreported]
    exact ⟨⟨hkeeps.1.enabled, hkeeps.1.answerOwner, hkeeps.1.position⟩, rfl, rfl, hkeeps.2⟩
  exact heard_announced env hy₁.1 hstate hbefore hy₁.2.1 hy₁.2.2.1 hy₁.2.2.2

/-- A record that is believed is reported; in an answer that is outstanding it tells the number of
the command before. -/
theorem record_of_believed (h : x.call.believes l r = true) :
    x.record env l r = (x.withCall (x.call.correlate l)).report env l r ∨
      x.record env l r = x.report env l r := by
  unfold record
  unfold believes at h
  simp only [ne_eq, Bool.and_eq_true, decide_eq_true_eq, Bool.or_eq_true, Bool.not_eq_true'] at h
  obtain ⟨hmode, hpending | ⟨hcorrelated, hquarantines⟩⟩ := h
  · rw [if_neg hmode, hpending]
    exact .inr rfl
  · rw [if_neg hmode]
    have hnumber : ¬ (l.commandId = (x.call.correlate l).reconcileCommandId && r.emptyNumber) = true := by
      rw [correlate_quarantines, hquarantines]
      exact Bool.false_ne_true
    -- waited for or not: it is reported
    cases x.call.reconcilePending with
    | false => exact .inr rfl
    | true =>
      left
      rw [if_pos rfl, if_pos hcorrelated]
      exact if_neg hnumber

/-- So the call is as the record tells. -/
theorem heard_record (h : x.call.believes l r = true) (hterminating : x.call.state ≠ .terminating) :
    x.call.Heard r.status (x.record env l r).call ∧ (x.record env l r).releases = x.releases := by
  obtain hrecord | hrecord := record_of_believed env h
  · have hstate : (x.withCall (x.call.correlate l)).call.state ≠ .terminating :=
      fun h => hterminating ((correlate_frame l).1.symm.trans h)
    obtain ⟨hheard, hreleases⟩ := heard_report env l r hstate
    rw [hrecord]
    exact ⟨hheard.of_correlate, hreleases⟩
  · rw [hrecord]
    exact heard_report env l r hterminating

/-- A record that is not believed leaves the call as it is. -/
theorem passed_record (h : x.call.believes l r = false) :
    x.call.Passed l r (x.record env l r).call ∧ (x.record env l r).releases = x.releases := by
  obtain ⟨id, hcorrelate, hid⟩ := correlate_eq x.call l
  have hphantom : (l.commandId = (x.withCall (x.call.correlate l)).call.reconcileCommandId &&
      r.emptyNumber) = x.call.quarantines l r := correlate_quarantines r
  unfold record
  dsimp only
  rw [hphantom]
  split_ifs with hmode hresponse hpending hcorrelated hquarantines
  · rw [hcorrelate]
    exact ⟨⟨⟨rfl, rfl, rfl⟩, rfl, rfl, rfl, hid, fun _ => rfl, absurd hmode⟩, rfl⟩
  · exact ⟨⟨⟨rfl, rfl, rfl⟩, rfl, rfl, rfl, .inl rfl, fun _ => rfl, absurd hmode⟩, rfl⟩
  · -- the record is quarantined, which is announced
    obtain ⟨_, hcall⟩ :=
      notify_call env (x.withCall (x.call.correlate l)) .phantomClccQuarantined
    refine ⟨?_, notify_releases (by decide)⟩
    rw [hcall]
    rw [hcorrelate]
    exact ⟨⟨rfl, rfl, rfl⟩, rfl, rfl, rfl, hid, fun h => absurd h hmode, fun _ _ => Nat.lt_succ_self _⟩
  · simp [believes, hmode, hcorrelated, hquarantines] at h
  · exact ⟨⟨⟨rfl, rfl, rfl⟩, rfl, rfl, rfl, .inl rfl, fun _ => rfl, fun _ h => absurd h hcorrelated⟩, rfl⟩
  · simp [believes, hmode, hpending] at h

/-- A call that is hung up stays so, whatever is reported. -/
theorem report_of_terminating (l : Line) (r : Clcc) (h : x.call.state = .terminating) :
    (x.report env l r).call.state = .terminating := by
  unfold report
  extract_lets call₁ call₂ call₃ before call₄ y₁ y₂
  obtain ⟨_, _, _, _, _, (hcall : call₂ = _)⟩ := introduced_eq env x.call l.raw r
  have hstate : call₂.state = .terminating := by
    rw [hcall]
    exact h
  rw [if_pos hstate, notify_state, issueAt_call, state_resolve]
  exact hstate

/-- A call that is being hung up stays so, whatever a record tells. -/
theorem record_of_terminating (l : Line) (r : Clcc) (h : x.call.state = .terminating) :
    (x.record env l r).call.state = .terminating := by
  cases hbelieves : x.call.believes l r with
  | false => exact (passed_record env hbelieves).1.state.trans h
  | true =>
    obtain hrecord | hrecord := record_of_believed env hbelieves
    · rw [hrecord]
      exact report_of_terminating env l r ((correlate_frame l).1.trans h)
    · rw [hrecord]
      exact report_of_terminating env l r h

/-! ## The end of an answer -/

/-- The texts by which the modem says that a command has failed. -/
def isError (raw : Text) : Bool :=
  hasPrefix (ascii "ERROR") raw || hasPrefix (ascii "+CME ERROR") raw

/-- `OK` only counts at the end of an answer that is outstanding. -/
theorem handle_of_ok (x : Context) (hok : l.raw = ascii "OK") :
    x.handle env l = if x.call.endsReconcile l then x.reconcileOk env else x := by
  have hclip : hasPrefix (ascii "+CLIP:") (ascii "OK") = false := by decide
  have herror : hasPrefix (ascii "ERROR") (ascii "OK") = false := by decide
  have hcme : hasPrefix (ascii "+CME ERROR") (ascii "OK") = false := by decide
  have hclcc : hasPrefix (ascii "+CLCC:") (ascii "OK") = false := by decide
  have hring : hasPrefix (ascii "RING") (ascii "OK") = false := by decide
  have hrelease : isRelease (ascii "OK") = false := by decide
  simp [handle, hok, hclip, herror, hcme, hclcc, hring, hrelease]

/-- So does an error, after which the answer is not outstanding any more. -/
theorem handle_of_error (x : Context) (herror : isError l.raw = true) :
    x.handle env l =
      if x.call.endsReconcile l then x.withCall { x.call.settled with idlePoll := false } else x := by
  -- none of the other texts begins like an error, nor an error like one of them
  have hother : ∀ other : Text,
      ((ascii "ERROR").isPrefixOf other || other.isPrefixOf (ascii "ERROR")) = false →
      ((ascii "+CME ERROR").isPrefixOf other || other.isPrefixOf (ascii "+CME ERROR")) = false →
      hasPrefix other l.raw = false := by
    intro other herror' hcme'
    obtain h | h := Bool.or_eq_true_iff.mp herror
    · exact hasPrefix_exclusive h herror'
    · exact hasPrefix_exclusive h hcme'
  have hclip := hother (ascii "+CLIP:") (by decide) (by decide)
  have hclcc := hother (ascii "+CLCC:") (by decide) (by decide)
  have hring := hother (ascii "RING") (by decide) (by decide)
  have hcend := hother (ascii "+CEND:") (by decide) (by decide)
  have hne : ∀ text : Text, isError text = false → l.raw ≠ text := fun text htext h => by
    rw [h, htext] at herror
    exact absurd herror Bool.false_ne_true
  have hrelease : isRelease l.raw = false := by
    simp [isRelease, hcend, hne (ascii "NO CARRIER") (by decide), hne (ascii "BUSY") (by decide),
      hne (ascii "NO DIALTONE") (by decide)]
  have hok := hne (ascii "OK") (by decide)
  unfold isError at herror
  simp [handle, hclip, hclcc, hring, hrelease, hok, herror]

end Context

/-! ## The lines of an answer -/

/-- A line of an answer, with what it meets.  The epoch and the sequence number are those it has as
the first line of its port. -/
structure Reply where
  env : Surroundings
  raw : Text
  epoch : ℕ
  sequence : ℕ
  dropCount : ℕ

/-- The next line of the selected port. -/
def Call.next (c : Call) (reply : Reply) (correlation : Correlation) (commandId : ℕ) : Line where
  port := c.atPort
  epoch := if c.restartEpoch = 0 then reply.epoch else c.restartEpoch
  sequence := if c.restartEpoch = 0 then reply.sequence else c.sequence + 1
  raw := reply.raw
  correlation := correlation
  commandId := commandId
  dropCount := reply.dropCount

theorem Call.correlated_next (c : Call) (reply : Reply) {commandId : ℕ} (h : commandId ≠ 0) :
    (c.next reply .response commandId).correlated = true := by
  simp [Line.correlated, next, h]

namespace Context

/-- The daemon when the next line of the selected port is handled. -/
def accepted (x : Context) (reply : Reply) (correlation : Correlation) (commandId : ℕ) : Context :=
  { x with commandFailed := false }.accept (x.call.next reply correlation commandId)

variable {x : Context} {reply : Reply} {correlation : Correlation} {commandId : ℕ}

/-- The next line is new, and no line is missing before it. -/
theorem operate_next (henabled : x.call.enabled = true) (hport : x.call.atPort ≠ []) :
    (x.operate reply.env (.line (x.call.next reply correlation commandId))).1 =
      (x.accepted reply correlation commandId).handle reply.env
        (x.call.next reply correlation commandId) := by
  -- before the first line of a port every number is new, and later the next one is
  have hhears : x.call.hears (x.call.next reply correlation commandId) = true := by
    by_cases hfirst : x.call.restartEpoch = 0
    · simp [hears, next, hport, hfirst]
    · simp [hears, next, hport, hfirst]
  have hgap : x.call.gap (x.call.next reply correlation commandId) = false := by
    by_cases hfirst : x.call.restartEpoch = 0
    · simp [gap, hfirst]
    · simp [gap, next, hfirst]
  simp [operate, line, henabled, hhears, checkGap, hgap, accepted]

end Context

end QModem.Voip
