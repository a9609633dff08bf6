import QModem.Voip.Reconcile

/-!
# Hanging Up

Is a call that was hung up ever alive again?  While the call is `TERMINATING`, a record of the call
list only makes the daemon hang up once more.  But an event gap and a recovery write over this
state, and then the next record that is believed brings the call back.

`Dialogue` is the call together with the fact that it was hung up and has not ended yet.

## Main results

- `Context.live_line`: which lines bring a call back that was hung up
- `Dialogue.hangup_final_iff`: hanging up is final in the runs without such a line, and in no other
-/

namespace QModem.Voip

open Lib Bool
open At (Text Correlation)

/-! ## What brings a call to life -/

namespace Call

variable {env : Surroundings} {c : Call} {l : Line}

/-- The statuses of a call in progress. -/
theorem live_heard_iff (h : c.state.live = false) (status : ℤ) :
    (c.heard status).live = true ↔ 0 ≤ status ∧ status ≤ 5 := by
  have hactive : c.state ≠ .active := fun heq => by rw [heq] at h; exact absurd h (by decide)
  unfold heard
  -- the branches in the order of the statuses; in the last one the state stays as it was
  split_ifs with h0 h12 h3 h45 hanswered
  · exact iff_of_true rfl (by omega)
  · exact iff_of_true rfl (by simp at h12; omega)
  · exact iff_of_true rfl (by omega)
  · exact iff_of_true rfl (by simp at h45; omega)
  · simp [hactive] at hanswered
  · rw [h]
    refine iff_of_false (by decide) fun hstatus => ?_
    simp at h12 h45
    omega

/-- The line has a record of a call in progress that counts. -/
def Reports (c : Call) (l : Line) : Prop :=
  ∃ r, clccStatus l.raw = some r ∧ c.believes l r = true ∧ 0 ≤ r.status ∧ r.status ≤ 5

end Call

namespace Context

variable {env : Surroundings} {x : Context} {l : Line}

/-- A call that is being hung up stays so; every other call takes the state of a record that is
believed. -/
theorem live_clcc (h : x.call.state.live = false) :
    (x.clcc env l).call.state.live = true ↔
      x.call.state ≠ .terminating ∧ x.call.Reports l := by
  unfold clcc Call.Reports
  cases hr : clccStatus l.raw with
  | none => simp [h]
  | some r =>
    cases hbelieves : x.call.believes l r with
    | false => simp [(passed_record env hbelieves).1.state, h, hbelieves]
    | true =>
      by_cases hterminating : x.call.state = .terminating
      · simp [record_of_terminating env l r hterminating, hterminating, CallState.live]
      · rw [(heard_record env hbelieves hterminating).1.state, Call.live_heard_iff h]
        simp [hbelieves, hterminating]

/-- The end of the list keeps the state or ends the call. -/
theorem state_reconcileOk (hidle : x.call.state ≠ .idle) :
    (x.reconcileOk env).call.state = x.call.state ∨ (x.reconcileOk env).call.state.over = true := by
  unfold reconcileOk
  -- an idle poll ends in `IDLE` only
  rw [if_neg (by simp [hidle])]
  dsimp only
  split
  · exact .inl (notify_state _)
  · rw [notify_state]
    exact .inr (Call.over_clear env _)

theorem state_ring (hidle : x.call.state ≠ .idle) : (x.ring env).call.state = x.call.state := by
  unfold ring
  rw [if_neg hidle, notify_state]

/-- A line without a record leaves the state of a call as it is, or ends the call. -/
theorem state_handle_of_not_clcc (hover : x.call.state.over = false)
    (hclcc : hasPrefix (ascii "+CLCC:") l.raw = false) :
    (x.handle env l).call.state = x.call.state ∨ (x.handle env l).call.state.over = true := by
  have hidle := CallState.ne_idle hover
  unfold handle
  split_ifs with hclip herror hok hrecord hring hrelease
  · exact .inl ((notify_state _).trans (Call.clipNumber_frame _).1)
  · exact .inl rfl
  · exact state_reconcileOk hidle
  · exact absurd (hclcc.symm.trans hrecord) false_ne_true
  · exact .inl (state_ring hidle)
  · rw [notify_state]
    exact .inr (Call.over_clear env _)
  · exact .inl rfl

/-- Only a record of the list brings a call back. -/
theorem live_handle (hlive : x.call.state.live = false) (hover : x.call.state.over = false) :
    (x.handle env l).call.state.live = true ↔
      x.call.state ≠ .terminating ∧ hasPrefix (ascii "+CLCC:") l.raw = true ∧
        x.call.Reports l := by
  cases hclcc : hasPrefix (ascii "+CLCC:") l.raw with
  | true => rw [handle_of_clcc hclcc, live_clcc hlive]; simp
  | false =>
    refine iff_of_false (fun h => ?_) (by simp)
    obtain hsame | hended := state_handle_of_not_clcc hover hclcc
    · rw [hsame, hlive] at h
      exact false_ne_true h
    · rw [CallState.not_over_of_live h] at hended
      exact false_ne_true hended

end Context

/-! ## Lines that bring a call back -/

namespace Call

variable {c c' : Call} {l : Line}

/-- The line brings a call back that was hung up: it is taken, `TERMINATING` is written over now or
was before, and it is a record of a call in progress that counts. -/
structure Revives (c : Call) (l : Line) : Prop where
  enabled : c.enabled = true
  hears : c.hears l = true
  overwritten : c.gap l = true ∨ c.state ≠ .terminating
  isRecord : hasPrefix (ascii "+CLCC:") l.raw = true
  inProgress : (c.gapped l).Reports l

/-- A gap writes over a call that is being hung up. -/
theorem gapped_ne_terminating :
    (c.gapped l).state ≠ .terminating ↔ c.gap l = true ∨ c.state ≠ .terminating := by
  unfold gapped
  split_ifs with hgap
  · exact iff_of_true CallState.noConfusion (.inl hgap)
  · exact (or_iff_right hgap).symm

theorem live_gapped (h : c.state.live = false) : (c.gapped l).state.live = false := by
  unfold gapped
  split
  · rfl
  · exact h

theorem over_gapped (h : c.state.over = false) : (c.gapped l).state.over = false := by
  unfold gapped
  split
  · rfl
  · exact h

end Call

namespace Context

variable {env : Surroundings} {x : Context} {l : Line}

/-- Which lines bring a call back that was hung up and has not ended. -/
theorem live_line (hlive : x.call.state.live = false) (hover : x.call.state.over = false) :
    (x.line env l).1.call.state.live = true ↔ x.call.Revives l := by
  cases htaken : x.call.takes l with
  | false =>
    rw [line_of_not_taken htaken]
    refine iff_of_false (by simp [hlive]) fun h => ?_
    simp [Call.takes, h.enabled, h.hears] at htaken
  | true =>
    -- the text is handled by the call that the gap check has left
    obtain ⟨_, _, _, _, _, _, hcall⟩ := checkGap_call env x l
    have hhandled : ((x.checkGap env l).accept l).call.state = (x.call.gapped l).state ∧
        (((x.checkGap env l).accept l).call.Reports l ↔ (x.call.gapped l).Reports l) := by
      dsimp only [accept, withCall]
      rw [hcall]
      exact ⟨rfl, Iff.rfl⟩
    obtain ⟨hstate, hreports⟩ := hhandled
    rw [line_of_taken htaken, live_handle (hstate ▸ Call.live_gapped hlive)
      (hstate ▸ Call.over_gapped hover), hstate, hreports, Call.gapped_ne_terminating]
    obtain ⟨henabled, hhears⟩ := and_eq_true_iff.mp htaken
    constructor
    · rintro ⟨hoverwritten, hrecord, hinProgress⟩
      exact ⟨henabled, hhears, hoverwritten, hrecord, hinProgress⟩
    · rintro ⟨-, -, hoverwritten, hrecord, hinProgress⟩
      exact ⟨hoverwritten, hrecord, hinProgress⟩

end Context

/-! ## What the other operations do -/

/-- A call begins only where there was none, and is answered only while it is alive. -/
theorem CallState.Moves.live {s s' : CallState} (h : s.Moves s') (hlive : s.live = false)
    (hover : s.over = false) : s'.live = false := by
  cases h with
  | stay => exact hlive
  | dial => exact absurd hover (by decide)
  | answerRinging => exact absurd hlive (by decide)
  | answerEarlyMedia => exact absurd hlive (by decide)
  | enable => rfl
  | disable => rfl
  | hangUp => rfl
  | recover => rfl
  | fail => rfl

/-- Only a line brings a call to life that is there and not alive. -/
theorem Call.Operated.live {env : Surroundings} {operation : Operation} {c c' : Call}
    (h : Operated env operation c c') (hlive : c.state.live = false)
    (hover : c.state.over = false) : c'.state.live = false := by
  cases h with
  | quiet h => exact h.moves.live hlive hover
  | sends h =>
    rw [Call.state_resolve]
    exact h.moves.live hlive hover
  | selects => exact hlive

/-! ## Hanging up over a whole run -/

def Operation.hangsUp : Operation → Bool
  | .hangup _ | .reject _ => true
  | _ => false

/-- The daemon with the fact that its call was hung up and has not ended yet. -/
structure Dialogue where
  context : Context
  ending : Bool

namespace Dialogue

/-- An operation in its surroundings.  A request to hang up is accepted if its result is zero and
its command did not fail. -/
def step (d : Dialogue) (event : Surroundings × Operation) : Dialogue :=
  let (context, result) := d.context.operate event.1 event.2
  let accepted := event.2.hangsUp && result = 0 && !context.commandFailed &&
    context.call.state = .terminating
  ⟨context, !context.call.state.over && (d.ending || accepted)⟩

/-- A call that was hung up is not alive. -/
def Final (d : Dialogue) : Prop := d.ending = true → d.context.call.state.live = false

/-- No line brings a call back that was hung up. -/
def Careful (d : Dialogue) (event : Surroundings × Operation) : Prop :=
  d.ending = true → ∀ l, event.2 = .line l → ¬ d.context.call.Revives l

variable {d : Dialogue} {event : Surroundings × Operation}

theorem not_over_step (h : (d.step event).ending = true) :
    (d.step event).context.call.state.over = false := by
  simp only [step, and_eq_true, not_eq_true'] at h
  exact h.1

theorem final_step_of_not_ending (h : d.ending = false) : (d.step event).Final := by
  -- the call is hung up in this step, so it is being ended
  intro hending
  have haccepted : (d.step event).context.call.state = .terminating := by
    simp only [step, h, Bool.false_or, Bool.and_eq_true, decide_eq_true_eq] at hending
    exact hending.2.2
  rw [haccepted]
  rfl

/-- While a call is ending, a step keeps it so exactly if it leaves no live call. -/
theorem final_step_of_ending (h : d.ending = true) :
    (d.step event).Final ↔ (d.step event).context.call.state.live = false := by
  refine ⟨fun hfinal => ?_, fun hlive _ => hlive⟩
  by_contra hlive
  have hover := CallState.not_over_of_live (not_eq_false _ ▸ hlive)
  exact hlive (hfinal (by simp only [step] at hover ⊢; simp [hover, h]))

/-- In a step the call stays hung up exactly if no line brings it back. -/
theorem final_step_iff (hover : d.ending = true → d.context.call.state.over = false)
    (hfinal : d.Final) : (d.step event).Final ↔ d.Careful event := by
  cases hending : d.ending with
  | false =>
    refine iff_of_true (final_step_of_not_ending hending) fun h => ?_
    exact absurd (hending.symm.trans h) false_ne_true
  | true =>
    rw [final_step_of_ending hending]
    have hlive := hfinal hending
    specialize hover hending
    -- a line is judged by `live_line`, every other operation by what it can change
    by_cases hline : ∃ l, event.2 = .line l
    · obtain ⟨l, hl⟩ := hline
      have hrevives : (d.step event).context.call.state.live = true ↔ d.context.call.Revives l := by
        simp only [step, hl]
        exact Context.live_line hlive hover
      rw [← not_eq_true, hrevives]
      refine ⟨fun hnot _ l' hl' => ?_, fun hcareful => hcareful hending l hl⟩
      cases hl.symm.trans hl'
      exact hnot
    · have hoperated := d.context.operated_operate event.1 event.2 fun l hl => hline ⟨l, hl⟩
      exact iff_of_true (hoperated.live hlive hover) fun _ l hl => absurd ⟨l, hl⟩ hline

/-- **Hanging up is final exactly in the runs without a line that brings the call back.** -/
theorem hangup_final_iff (x : Context) (events : List (Surroundings × Operation)) :
    Throughout step Final ⟨x, false⟩ events ↔ Along step Careful ⟨x, false⟩ events := by
  -- a call that is still ending is not over
  apply throughout_iff_along fun d => d.ending = true → d.context.call.state.over = false
  · exact fun h => absurd h false_ne_true
  · exact fun _ _ _ _ => not_over_step
  · exact fun h => absurd h false_ne_true
  · exact fun _ _ _ hover hfinal => final_step_iff hover hfinal

def modemLine (sequence : ℕ) (raw : String) (correlation : Correlation) (commandId : ℕ) : Operation :=
  .line (.ofTty sequence raw correlation commandId)

/-- A call is made and hung up, and the list of calls still has it.  Before the record of the list a
line is missing. -/
def revivedCall : List (Surroundings × Operation) :=
  [.setEnabled true, .originate .browser (ascii "10086"), modemLine 1 "OK" .terminal 1,
    .hangup .browser, modemLine 2 "OK" .terminal 2, .pollActive,
    modemLine 4 "+CLCC: 1,0,0,0,0,\"10086\",129" .response 3].map (.working (ascii "/dev/ttyUSB2"), ·)

theorem revivedCall_not_final : ¬ Throughout step Final ⟨.initial, false⟩ revivedCall := by
  intro h
  have hrun : (run step ⟨.initial, false⟩ revivedCall).ending = true ∧
      (run step ⟨.initial, false⟩ revivedCall).context.call.state = .active := by
    decide +kernel
  have hlive := h.last hrun.1
  exact absurd hlive (by decide)

end Dialogue

end QModem.Voip
