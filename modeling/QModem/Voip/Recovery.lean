import QModem.Voip.Daemon
import QModem.Voip.Reconcile

/-!
# Recovery

A gap in the lines and the start of the voice service make the daemon recover: it asks for the list
of calls, and the answer tells whether there is a call.  But an error instead of a list, or a record
with an unknown status, ends the answer and not the recovery, and the timer does not ask again.

## Main results

- `Context.pends_handle_iff`: which lines leave the daemon recovering with nothing outstanding
- `VoiceDaemon.way_out_iff`: the runs in which a recovery always has a way out
-/

namespace QModem.Voip

open Lib Call
open At (Text Message)

namespace Call

variable {env : Surroundings} {c c' : Call} {l : Line}

/-- While the daemon is recovering, an answer is outstanding. -/
def Pends (c : Call) : Prop := c.state = .recovering → c.reconcilePending = true

/-- The line ends the answer and not the recovery: it tells of an error, or it is a record whose
status is none of those that a call can have. -/
def Strands (c : Call) (l : Line) : Prop :=
  c.state = .recovering ∧
    (Context.isError l.raw = true ∧ c.endsReconcile l = true ∨
      hasPrefix (ascii "+CLCC:") l.raw = true ∧ ∃ r, clccStatus l.raw = some r ∧
        c.believes l r = true ∧ ¬ (0 ≤ r.status ∧ r.status ≤ 5))

theorem pends_of_state (h : c.state ≠ .recovering) : c.Pends := fun hstate => absurd hstate h

theorem pends_of_over (h : c.state.over = true) : c.Pends := pends_of_state fun hstate => by
  rw [hstate] at h
  exact absurd h Bool.false_ne_true

theorem pends_congr (hstate : c'.state = c.state)
    (hpending : c'.reconcilePending = c.reconcilePending) : c'.Pends ↔ c.Pends := by
  unfold Pends
  rw [hstate, hpending]

theorem pends_resolve : (c.resolve env).Pends ↔ c.Pends :=
  pends_congr state_resolve reconcilePending_resolve

/-- A record leaves the daemon recovering exactly if its status is unknown. -/
theorem heard_eq_recovering {status : ℤ} :
    c.heard status = .recovering ↔ c.state = .recovering ∧ ¬ (0 ≤ status ∧ status ≤ 5) := by
  unfold heard
  split_ifs with h0 h12 h3 h45 hanswer
  · exact iff_of_false nofun fun h => h.2 (by omega)
  · exact iff_of_false nofun fun h => h.2 (by simp at h12; omega)
  · exact iff_of_false nofun fun h => h.2 (by omega)
  · exact iff_of_false nofun fun h => h.2 (by simp at h45; omega)
  · -- the call was answered and is active
    have hactive : c.state = .active := by
      simp only [Bool.or_eq_true, decide_eq_true_eq, not_or, not_not] at hanswer
      exact hanswer.2
    rw [hactive]
    exact iff_of_false nofun fun h => absurd h.1 nofun
  · simp only [Bool.or_eq_true, decide_eq_true_eq, not_or] at h12 h45
    exact (and_iff_left (by omega)).symm

end Call

namespace Context

variable {env : Surroundings} {x : Context} {l : Line} {r : Clcc}

theorem pends_notify (event : CallEvent) : (x.notify env event).call.Pends ↔ x.call.Pends :=
  pends_congr (notify_state event) (notify_reconcilePending event)

variable (env)

/-- A record leaves the daemon recovering with nothing outstanding exactly if it is believed and its
status is unknown. -/
theorem pends_record_iff (l : Line) (r : Clcc) (h : x.call.Pends) :
    (x.record env l r).call.Pends ↔ ¬ (x.call.state = .recovering ∧ x.call.believes l r = true ∧
      ¬ (0 ≤ r.status ∧ r.status ≤ 5)) := by
  -- only a record that is believed ends the wait
  cases hbelieves : x.call.believes l r with
  | false =>
    obtain ⟨hpassed, -⟩ := passed_record env hbelieves
    refine iff_of_true ((pends_congr hpassed.state hpassed.pending).mpr h) ?_
    exact fun hnot => absurd hnot.2.1 Bool.false_ne_true
  | true =>
    by_cases hterminating : x.call.state = .terminating
    · have hstate := record_of_terminating env l r hterminating
      refine iff_of_true (pends_of_state (hstate.trans_ne nofun)) fun hnot => ?_
      exact absurd (hterminating.symm.trans hnot.1) nofun
    · obtain ⟨hheard, -⟩ := heard_record env hbelieves hterminating
      unfold Pends
      rw [hheard.state, hheard.pending, heard_eq_recovering, and_iff_right rfl]
      exact imp_congr_right fun _ => iff_of_false Bool.false_ne_true not_false

/-- After `OK` the daemon is not recovering: without a live call there is none. -/
theorem pends_reconcileOk (x : Context) : (x.reconcileOk env).call.Pends := by
  unfold reconcileOk
  dsimp only
  -- each branch leaves the recovery
  split_ifs with hidle hlive
  · refine pends_of_state fun hstate => ?_
    simp only [Bool.and_eq_true, decide_eq_true_eq] at hidle
    exact absurd (hidle.2.symm.trans hstate) nofun
  · rw [pends_notify]
    refine pends_of_state fun hstate => ?_
    have hmissed : x.call.missed.state = .recovering := hstate
    rw [hmissed] at hlive
    exact absurd hlive Bool.false_ne_true
  · rw [pends_notify]
    exact pends_of_over (over_clear env x.call.missed)
  · rw [pends_notify]
    exact pends_of_over (over_clear env x.call.missed)

theorem pends_ring (h : x.call.Pends) : (x.ring env).call.Pends := by
  unfold ring
  rw [pends_notify]
  split
  · exact pends_of_state (beginCall_frame.1.trans_ne nofun)
  · exact h

/-- Handling a line leaves the daemon recovering with nothing outstanding exactly if the line ends
the answer and not the recovery. -/
theorem pends_handle_iff (l : Line) (h : x.call.Pends) :
    (x.handle env l).call.Pends ↔ ¬ x.call.Strands l := by
  cases herror : isError l.raw with
  | true =>
    -- no text is both an error and a record
    have hclcc : ¬ hasPrefix (ascii "+CLCC:") l.raw = true := by
      intro hclcc
      have herror' : hasPrefix (ascii "ERROR") l.raw = false := hasPrefix_exclusive hclcc (by decide)
      have hcme : hasPrefix (ascii "+CME ERROR") l.raw = false := hasPrefix_exclusive hclcc (by decide)
      rw [isError, herror', hcme] at herror
      exact absurd herror Bool.false_ne_true
    rw [handle_of_error env x herror, Strands]
    simp only [herror, hclcc, true_and, false_and, or_false, Bool.false_eq_true]
    -- an error at the end of the answer settles it and leaves the state alone
    split_ifs with hends
    · simp [Pends, withCall, settled, hends]
    · simp [hends, h]
  | false =>
    cases hclcc : hasPrefix (ascii "+CLCC:") l.raw with
    | true =>
      rw [handle_of_clcc hclcc, clcc, Strands]
      cases hstatus : clccStatus l.raw with
      | none => simp [herror, h]
      | some r =>
        rw [pends_record_iff env l r h]
        simp [herror, hclcc]
    | false =>
      have hnot : ¬ x.call.Strands l := by
        rintro ⟨-, hends | hends⟩
        · exact absurd (herror.symm.trans hends.1) Bool.false_ne_true
        · exact absurd (hclcc.symm.trans hends.1) Bool.false_ne_true
      -- of the lines left, only `OK` settles an answer, and then the recovery is over
      refine iff_of_true ?_ hnot
      unfold handle
      unfold isError at herror
      simp only [herror, hclcc, Bool.and_false, Bool.false_eq_true, if_false]
      split_ifs
      · obtain ⟨_, _, hclip⟩ := clipNumber_eq x.call l.raw
        rw [pends_notify, hclip]
        exact h
      · exact pends_reconcileOk env x
      · exact pends_ring env h
      · rw [pends_notify]
        exact pends_of_over (over_clear env x.call)
      · exact h

/-! ## Commands -/

theorem commandFailed_notify (x : Context) (event : CallEvent) :
    (x.notify env event).commandFailed = x.commandFailed := by
  unfold notify publishEvent
  dsimp only [withCall]
  split
  · rfl
  · split <;> rfl

/-- A report sends a command only while a call is hung up. -/
theorem commandFailed_report (l : Line) (r : Clcc) (hterminating : x.call.state ≠ .terminating) :
    (x.report env l r).commandFailed = x.commandFailed := by
  unfold report
  extract_lets call₁ call₂ call₃ before call₄ y₁ y₂
  obtain ⟨_, _, _, _, _, (hcall : call₂ = _)⟩ := introduced_eq env x.call l.raw r
  have hy₂ : y₂.commandFailed = x.commandFailed := by
    unfold y₂
    split
    · exact commandFailed_notify env y₁ _
    · rfl
  -- only a call that is being hung up makes the report send a command
  rw [if_neg (by rw [hcall]; exact hterminating)]
  split
  · exact (commandFailed_notify env y₂ _).trans hy₂
  · exact hy₂

/-- A line that ends the answer and not the recovery sends no command. -/
theorem commandFailed_handle (h : x.call.Strands l) :
    (x.handle env l).commandFailed = x.commandFailed := by
  obtain ⟨hstate, ⟨herror, hends⟩ | ⟨hclcc, r, hstatus, hbelieves, -⟩⟩ := h
  · rw [handle_of_error env x herror, if_pos hends]
    rfl
  · have hterminating : x.call.state ≠ .terminating := hstate.trans_ne nofun
    rw [handle_of_clcc hclcc, clcc, hstatus]
    dsimp only
    obtain hrecord | hrecord := record_of_believed env hbelieves
    · rw [hrecord]
      exact commandFailed_report env l r ((correlate_frame l).1.trans_ne hterminating)
    · rw [hrecord]
      exact commandFailed_report env l r hterminating

/-! ## Events of the daemon -/

theorem fault_ne_recovering (x : Context) : (x.fault env).call.state ≠ .recovering := by
  rw [fault, notify_state]
  exact (by decide : CallState.fault ≠ .recovering)

theorem pends_fault (x : Context) : (x.fault env).call.Pends :=
  pends_of_state (fault_ne_recovering env x)

theorem pends_publishEvent (x : Context) (event : CallEvent) :
    (x.publishEvent env event).call.Pends ↔ x.call.Pends := by
  obtain ⟨_, hcall⟩ := publishEvent_call env x event
  rw [hcall]
  exact Iff.rfl

/-- A line that is taken does not end an answer without the recovery.  If the command that a gap
sends has failed, there is a fault in any case. -/
def Answers (env : Surroundings) (x : Context) (l : Line) : Prop :=
  x.call.takes l = true → ({ x with commandFailed := false }.checkGap env l).commandFailed = false →
    ¬ (x.call.gapped l).Strands l

/-- The line is handled by the call that the gap check has left. -/
theorem accept_checkGap (x : Context) (l : Line) :
    (((x.checkGap env l).accept l).call.Strands l ↔ (x.call.gapped l).Strands l) ∧
      (((x.checkGap env l).accept l).call.Pends ↔ (x.call.gapped l).Pends) := by
  obtain ⟨_, _, _, _, _, _, hcall⟩ := checkGap_call env x l
  dsimp only [accept, withCall]
  rw [hcall]
  exact ⟨Iff.rfl, Iff.rfl⟩

theorem pends_gapped (h : x.call.Pends) : (x.call.gapped l).Pends := by
  unfold gapped
  split
  · exact fun _ => rfl
  · exact h

/-- A message keeps an answer outstanding exactly if its line does not end the answer alone. -/
theorem pends_receive_iff (m : Message) (h : x.call.Pends) :
    (x.receive env m).call.Pends ↔ ∀ l, lineOf m = some l → x.Answers env l := by
  cases hline : lineOf m with
  | none =>
    unfold receive
    rw [hline]
    exact iff_of_true h nofun
  | some l =>
    have hiff : (∀ l', some l = some l' → x.Answers env l') ↔ x.Answers env l :=
      ⟨fun hall => hall l rfl, fun hl l' heq => Option.some.inj heq ▸ hl⟩
    rw [hiff]
    cases htaken : x.call.takes l with
    | false =>
      rw [receive_call_of_not_taken hline htaken]
      exact iff_of_true h fun htaken' => absurd (htaken.symm.trans htaken') Bool.false_ne_true
    | true =>
      let y : Context := { x with commandFailed := false }
      let z : Context := (y.checkGap env l).accept l
      have hreceive : x.receive env m =
          if (z.handle env l).commandFailed then (z.handle env l).fault env else z.handle env l := by
        unfold receive
        rw [hline]
        dsimp only
        rw [line_of_taken (x := y) htaken]
      obtain ⟨hstrands, hpends⟩ : (z.call.Strands l ↔ (x.call.gapped l).Strands l) ∧
          (z.call.Pends ↔ (x.call.gapped l).Pends) := accept_checkGap env y l
      have hhandle := pends_handle_iff env l (hpends.mpr (pends_gapped h))
      have hanswers : x.Answers env l ↔ (z.commandFailed = false → ¬ z.call.Strands l) := by
        unfold Answers
        rw [hstrands, forall_prop_of_true htaken]
        exact Iff.rfl
      rw [hreceive, hanswers]
      -- a line that strands the recovery sends nothing: the fault can only be that of the gap
      by_cases hends : z.call.Strands l
      · rw [commandFailed_handle env hends]
        cases hfailed : z.commandFailed with
        | true => exact iff_of_true (pends_fault env _) nofun
        | false => exact hhandle.trans ⟨fun hnot _ => hnot, fun hnot => hnot rfl⟩
      · refine iff_of_true ?_ fun _ => hends
        split
        · exact pends_fault env _
        · exact hhandle.mpr hends

theorem pends_terminate (endpoint : Endpoint) (h : x.call.Pends) :
    (x.terminate env endpoint).1.call.Pends := by
  unfold terminate
  split_ifs
  · exact h
  · exact h
  · exact h
  · rw [issueAt_call, pends_resolve]
    exact pends_of_state nofun

/-- What clients ask for does not make the daemon recover. -/
theorem pends_action (endpoint : Endpoint) (action : Action) (h : x.call.Pends) :
    (x.operate env (action.operation endpoint)).1.call.Pends := by
  let y : Context := { x with commandFailed := false }
  -- an action is refused during a recovery, or leaves it
  cases action with
  | originate number =>
    show (y.originate env endpoint number).1.call.Pends
    unfold originate
    split_ifs
    · exact h
    · exact h
    · rw [issueAt_call, pends_resolve]
      exact pends_of_state nofun
  | answer =>
    show (y.answer env endpoint).1.call.Pends
    unfold answer
    split_ifs
    · exact h
    · exact h
    · exact h
    · rw [issueAt_call, pends_resolve]
      exact pends_of_state nofun
  | reject =>
    show (y.reject env endpoint).1.call.Pends
    unfold reject
    split
    · exact pends_terminate env endpoint h
    · exact h
  | hangup => exact pends_terminate (x := y) env endpoint h
  | sendDtmf digit =>
    show (y.sendDtmf env endpoint digit).1.call.Pends
    unfold sendDtmf
    split_ifs
    · exact h
    · exact h
    · exact h
    · exact h
    · rw [issueAt_call, pends_resolve]
      exact h

/-- A request leaves no recovery without an answer, also if it fails. -/
theorem pends_request (ready : Bool) (endpoint : Endpoint) (action : Action) (h : x.call.Pends) :
    (x.request env ready endpoint action).call.Pends := by
  have hdone := pends_action env endpoint action h
  unfold request
  dsimp only
  -- off, refused, a fault, or done
  split_ifs with henabled hrefused hfailed hfaults hresult
  · exact h
  · exact h
  · exact pends_fault env _
  · exact hdone
  · cases action.event with
    | none => exact hdone
    | some event => exact (pends_publishEvent env _ event).mpr hdone
  · cases action.event with
    | none => exact hdone
    | some event => exact hdone

/-- When the daemon is enabled, it recovers and has asked for the list of calls. -/
theorem pends_activate (x : Context) : (x.activate env).call.Pends := by
  unfold activate
  dsimp only
  split_ifs with hfailed
  · exact pends_of_state nofun
  · rw [pends_publishEvent]
    show (startRecovery env _).1.call.Pends
    unfold startRecovery
    split_ifs with hdisabled
    · exact absurd hdisabled Bool.false_ne_true
    · rw [issueAt_call, pends_resolve]
      exact fun _ => rfl

/-- Enabling with a restart begins a recovery, for which an answer must be outstanding. -/
theorem pends_enable_iff (preparation : Preparation) (h : x.call.Pends) :
    (x.enable env preparation).call.Pends ↔
      (preparation = .restart → x.call.enabled = false → x.call.reconcilePending = true) := by
  unfold enable
  cases henabled : x.call.enabled with
  | true => exact iff_of_true h nofun
  | false =>
    cases preparation with
    | failed => exact iff_of_true h nofun
    -- `schedule_modem_reenumeration` sets the state and asks for nothing
    | restart =>
      exact ⟨fun hpends _ _ => hpends rfl, fun hpending _ => hpending rfl rfl⟩
    | ready => exact iff_of_true (pends_activate env x) nofun

theorem pends_disable (x : Context) : (x.disable env).call.Pends :=
  (pends_publishEvent env _ .disabled).mpr (pends_of_state nofun)

theorem pends_armFailed (h : x.call.Pends) : (x.armFailed env).call.Pends := by
  unfold armFailed
  split
  · exact pends_fault env x
  · exact h

/-! ## The timer -/

/-- Polls do not change the state. -/
theorem state_operate_of_rest {operation : Operation} (hact : x.call.actOf operation = .rest)
    (hbefore : x.before env operation = x) :
    (x.operate env operation).1.call.state = x.call.state := by
  obtain ⟨_, _, hcall⟩ := (announced_operate env x operation).call
  rw [hact, hbefore] at hcall
  have hstate := congrArg state hcall
  exact hstate

theorem pollSetup_ne_recovering (h : x.call.state ≠ .recovering) :
    (x.pollSetup env).call.state ≠ .recovering := by
  unfold pollSetup
  dsimp only
  split
  · exact fault_ne_recovering env _
  · rw [state_operate_of_rest env rfl rfl]
    exact h

/-- The timer begins no recovery. -/
theorem pollCall_ne_recovering (h : x.call.state ≠ .recovering) :
    (x.pollCall env).call.state ≠ .recovering := by
  have hpoll : (x.operate env .pollActive).1.call.state = x.call.state :=
    state_operate_of_rest env rfl rfl
  unfold pollCall
  dsimp only
  split
  · rw [state_operate_of_rest env rfl rfl, hpoll]
    exact h
  · rw [hpoll]
    exact h

end Context

namespace VoiceDaemon

variable {d : VoiceDaemon}

variable (env : Surroundings)

theorem waitIdle_state (d : VoiceDaemon) :
    (d.waitIdle env).context.call.state = d.context.call.state := by
  unfold waitIdle
  split_ifs
  all_goals rfl

theorem pollIdle_state (d : VoiceDaemon) :
    (d.pollIdle env).context.call.state = d.context.call.state := by
  unfold pollIdle
  dsimp only
  split_ifs
  · rfl
  · exact (Context.state_operate_of_rest _ rfl rfl).trans (Context.state_operate_of_rest _ rfl rfl)
  · exact Context.state_operate_of_rest _ rfl rfl

/-- In no state it does. -/
theorem poll_ne_recovering (t : Tick) (h : d.context.call.state ≠ .recovering) :
    (d.poll t).context.call.state ≠ .recovering := by
  have hcall : (if d.context.call.reconcilePending then d
      else d.withContext (d.context.pollCall t.env)).context.call.state ≠ .recovering := by
    split
    · exact h
    · exact Context.pollCall_ne_recovering t.env h
  have hsetup := Context.pollSetup_ne_recovering t.env h
  unfold poll
  split
  · -- each state has its own poll
    cases hstate : d.context.call.state with
    | outgoingSetup => exact hsetup
    | incomingRinging => exact hsetup
    | earlyMedia => exact hsetup
    | active => exact hcall
    | terminating => exact hcall
    | idle =>
      dsimp only
      split
      · rw [pollIdle_state, waitIdle_state]
        exact h
      · exact h
    | disabled => exact h
    | recovering => exact absurd hstate h
    | fault => exact h
  · exact h

/-- The timer does not make the daemon recover. -/
theorem pends_tick (t : Tick) (h : d.context.call.Pends) : (d.tick t).context.call.Pends := by
  by_cases hstate : d.context.call.state = .recovering
  -- in a recovery nothing happens, and from any other state none begins
  · rw [tick_of_recovering hstate]
    exact h
  · refine pends_of_state ?_
    unfold tick
    dsimp only
    have harm : (if t.armFails then d.withContext (d.context.armFailed t.env) else d
        ).context.call.state ≠ .recovering := by
      split
      · show (d.context.armFailed t.env).call.state ≠ .recovering
        unfold Context.armFailed
        split
        · exact Context.fault_ne_recovering t.env d.context
        · exact hstate
      · exact hstate
    split
    · exact harm
    · exact poll_ne_recovering t harm

/-- An idle poll that is given up after a gap leaves the daemon recovering. -/
theorem pends_idleComplete_iff (ok : Bool) (h : d.context.call.Pends) :
    (d.idleComplete env ok).context.call.Pends ↔
      (d.idleRequest = true → ok = false → d.context.call.idlePoll = true →
        d.context.call.state ≠ .recovering) := by
  unfold idleComplete
  split_ifs with hrequest hdone
  · refine iff_of_true h fun hrequest' => ?_
    simp [hrequest'] at hrequest
  · refine iff_of_true h fun _ hok hpoll => ?_
    simp [hok, hpoll] at hdone
  · simp only [Bool.not_eq_true', Bool.not_eq_false, Bool.or_eq_true, not_or, Bool.not_eq_true]
      at hrequest hdone
    -- giving up the idle poll clears `reconcile_pending` in every state
    have hpends : (d.context.operate env .abandonIdlePoll).1.call.Pends ↔
        d.context.call.state ≠ .recovering :=
      ⟨fun hpends hstate => absurd (hpends hstate) Bool.false_ne_true,
        fun hne => pends_of_state hne⟩
    exact hpends.trans ⟨fun hne _ _ _ => hne, fun hne => hne hrequest hdone.1 (by simpa using hdone.2)⟩

/-! ## Runs -/

/-- A recovery has a way out: an answer is outstanding, or the timer asks for the list of calls. -/
def WayOut (d : VoiceDaemon) : Prop :=
  d.context.call.state = .recovering →
    d.context.call.reconcilePending = true ∨
      ∃ t, d.context.listRequests < (d.tick t).context.listRequests

theorem wayOut_iff : d.WayOut ↔ d.context.call.Pends := by
  refine ⟨fun h hstate => (h hstate).resolve_right ?_, fun h hstate => .inl (h hstate)⟩
  -- the timer does nothing during a recovery, so the second way out is never there
  rintro ⟨t, ht⟩
  rw [tick_of_recovering hstate] at ht
  exact absurd ht (lt_irrefl _)

/-- The event leaves a recovery its way out: the modem need not start again, the line does not end
the answer without the recovery, and the request for an idle poll does not fail during a recovery.
-/
def Leaves (d : VoiceDaemon) : DaemonEvent → Prop
  | .enable _ preparation =>
    preparation = .restart → d.context.call.enabled = false → d.context.call.reconcilePending = true
  | .message env m => ∀ l, lineOf m = some l → d.context.Answers env l
  | .idleComplete _ ok =>
    d.idleRequest = true → ok = false → d.context.call.idlePoll = true →
      d.context.call.state ≠ .recovering
  | _ => True

/-- **One event** leaves the way out exactly if it does none of the three things. -/
theorem wayOut_step_iff (h : d.WayOut) (event : DaemonEvent) :
    (d.step event).WayOut ↔ d.Leaves event := by
  rw [wayOut_iff] at h ⊢
  cases event with
  | request env ready endpoint action =>
    exact iff_of_true (Context.pends_request env ready endpoint action h) trivial
  | enable env preparation => exact Context.pends_enable_iff env preparation h
  | disable env => exact iff_of_true (Context.pends_disable env d.context) trivial
  | message env m => exact Context.pends_receive_iff env m h
  | armFailed env => exact iff_of_true (Context.pends_armFailed env h) trivial
  | tick t => exact iff_of_true (pends_tick t h) trivial
  | idleComplete env ok => exact pends_idleComplete_iff env ok h

/-- **The runs in which a recovery has a way out at every moment.** -/
theorem way_out_iff (events : List DaemonEvent) :
    Throughout step WayOut initial events ↔ Along step Leaves initial events := by
  refine throughout_iff_along (fun _ => True) trivial (fun _ _ _ _ => trivial) ?_ ?_
  · exact wayOut_iff.mpr (pends_of_state nofun)
  · exact fun d event _ _ h => wayOut_step_iff h event

/-- The voice service is enabled, and the modem answers the first `AT+CLCC` with an error. -/
def refusedList : List DaemonEvent :=
  [.enable (.working (ascii "/dev/ttyUSB2")) .ready,
    .message (.working (ascii "/dev/ttyUSB2"))
      (.line ⟨⟨ascii "/dev/ttyUSB2", 1, 1, 0, ascii "ERROR", 1, .terminal⟩, 0⟩)]

/-- The daemon stays in the recovery: nothing is outstanding, and the timer does not ask again. -/
theorem refusedList_no_way_out : ¬ Throughout step WayOut initial refusedList := by
  intro h
  have hpends := wayOut_iff.mp h.last
  exact absurd (hpends (by decide +kernel)) (by decide +kernel)

end VoiceDaemon

end QModem.Voip
