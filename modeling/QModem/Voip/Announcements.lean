import QModem.Voip.Recovery
import QModem.Voip.Revision

/-!
# What the Voice Daemon Announces

Other parts of `voipd` learn of the call when an event is published.  While the daemon is enabled,
it publishes an event whenever the state of the call has changed; only switching it on and off is an
exception.

## Main results

- `Context.proceeds_handle`: a line that changes the state is announced
- `VoiceDaemon.proceeds_step`: so is everything else that changes the state of an enabled daemon
- `VoiceDaemon.changes_le_events`: the same along a run
-/

namespace QModem.Voip

open Lib Call
open At (Text Message)

def Output.isEvent : Output → Bool
  | event _ => true
  | command _ => false

namespace Call

variable {env : Surroundings} {c : Call}

theorem revision_resolve : (c.resolve env).revision = c.revision := by
  obtain h | ⟨_, -, -, h⟩ := resolve_cases env c <;> rw [h]
  rfl

theorem enabled_complete : (c.complete env).enabled = c.enabled := by
  unfold complete
  split <;> rfl

theorem enabled_markActive : (c.markActive env).enabled = c.enabled := by
  unfold markActive beginCall
  dsimp only
  split_ifs <;> rfl

end Call

namespace Context

variable {env : Surroundings} {x y z : Context}

def events (x : Context) : ℕ := x.outputs.countP Output.isEvent

/-- What a daemon does that is neither switched on nor off: it does not lower the revision, and it
announces every change of state. -/
structure Proceeds (x y : Context) : Prop where
  enabled : y.call.enabled = x.call.enabled
  raises : x.call.Raises y.call
  events : x.events ≤ y.events
  moved : y.call.state ≠ x.call.state → x.events < y.events

theorem Proceeds.refl (x : Context) : x.Proceeds x :=
  ⟨rfl, .of_eq rfl rfl, le_rfl, fun h => absurd rfl h⟩

theorem Proceeds.trans (h : x.Proceeds y) (h' : y.Proceeds z) : x.Proceeds z where
  enabled := h'.enabled.trans h.enabled
  raises := h.raises.trans h'.raises
  events := h.events.trans h'.events
  moved hne := by
    -- one of the two parts has changed the state and announced it
    by_cases hsame : y.call.state = x.call.state
    · exact h.events.trans_lt (h'.moved (hsame ▸ hne))
    · exact (h.moved hsame).trans_le h'.events

/-- Nothing of this has changed. -/
theorem Proceeds.of_eq (henabled : y.call.enabled = x.call.enabled)
    (hrevision : y.call.revision = x.call.revision) (hstate : y.call.state = x.call.state)
    (hevents : x.events ≤ y.events) : x.Proceeds y :=
  ⟨henabled, .of_eq hrevision hstate, hevents, fun h => absurd hstate h⟩

/-! ## Commands and events -/

theorem events_issueAt (command : AtCommand) :
    (x.issueAt env command).events = x.events := by
  unfold events
  obtain ⟨h, -⟩ | h := @issueAt_outputs env x command <;> simp [h, Output.isEvent]

theorem events_issueIdleAt (command : AtCommand) :
    (x.issueIdleAt env command).events = x.events := by
  unfold issueIdleAt
  split_ifs
  · unfold events
    rw [List.countP_append]
    rfl
  · rfl
  · exact events_issueAt command

theorem proceeds_issueAt (env : Surroundings) (x : Context) (command : AtCommand) :
    x.Proceeds (x.issueAt env command) := by
  refine .of_eq ?_ ?_ ?_ (events_issueAt command).ge
  · rw [issueAt_call, enabled_resolve]
  · rw [issueAt_call, revision_resolve]
  · rw [issueAt_call, state_resolve]

theorem events_publishEvent (env : Surroundings) (x : Context) (event : CallEvent) :
    (x.publishEvent env event).events = x.events + 1 := by
  simp [events, publishEvent_outputs, Output.isEvent]

/-- What is done and then published is announced. -/
theorem Proceeds.publishEvent (henabled : y.call.enabled = x.call.enabled)
    (hraises : x.call.Raises y.call) (hevents : x.events ≤ y.events) (event : CallEvent) :
    x.Proceeds (y.publishEvent env event) := by
  obtain ⟨_, hcall⟩ := publishEvent_call env y event
  have hlt : x.events < (y.publishEvent env event).events := by
    rw [events_publishEvent]
    exact Nat.lt_succ_of_le hevents
  refine ⟨?_, ?_, hlt.le, fun _ => hlt⟩
  · rw [hcall]
    exact henabled
  · rw [hcall]
    exact ⟨hraises.revision, hraises.moved⟩

theorem Proceeds.notify (henabled : y.call.enabled = x.call.enabled)
    (hrevision : x.call.revision ≤ y.call.revision) (hevents : x.events ≤ y.events)
    (event : CallEvent) : x.Proceeds (y.notify env event) :=
  .publishEvent (y := y.withCall y.call.touch) henabled (.of_lt (Nat.lt_succ_of_le hrevision))
    hevents event

theorem proceeds_notify (env : Surroundings) (x : Context) (event : CallEvent) :
    x.Proceeds (x.notify env event) := .notify rfl le_rfl le_rfl event

/-- A change of the call is announced. -/
theorem Proceeds.change {c : Call} (henabled : c.enabled = x.call.enabled)
    (hrevision : x.call.revision ≤ c.revision) (event : CallEvent) :
    x.Proceeds ((x.withCall c).notify env event) :=
  .notify (y := x.withCall c) henabled hrevision le_rfl event

theorem Proceeds.fault (henabled : y.call.enabled = x.call.enabled)
    (hrevision : x.call.revision ≤ y.call.revision) (hevents : x.events ≤ y.events) :
    x.Proceeds (y.fault env) :=
  .notify (y := y.withCall { y.call with state := .fault }) henabled hrevision hevents .fault

/-! ## Lines -/

variable {l : Line} {r : Clcc}

variable (env x l)

theorem proceeds_correlate : x.Proceeds (x.withCall (x.call.correlate l)) := by
  unfold correlate
  split
  · exact .of_eq rfl rfl rfl le_rfl
  · exact .refl x

/-- A report announces the state it sets. -/
theorem proceeds_report (r : Clcc) : x.Proceeds (x.report env l r) := by
  unfold report
  extract_lets call₁ call₂ call₃ before call₄ y₁ y₂
  obtain ⟨_, _, _, _, _, (hcall : call₂ = _)⟩ := introduced_eq env x.call l.raw r
  obtain ⟨_, _, _, _, hreported, -⟩ := reported_eq env call₄ r.status
  have hcall₂ : call₂.enabled = x.call.enabled ∧ call₂.revision = x.call.revision ∧
      call₂.state = x.call.state := by
    rw [hcall]
    exact ⟨rfl, rfl, rfl⟩
  split_ifs with hterminating hring
  · -- the call is hung up again, which is announced
    have hsent : x.Proceeds (x.withCall call₃) := .of_eq hcall₂.1 hcall₂.2.1 hcall₂.2.2 le_rfl
    exact (hsent.trans (proceeds_issueAt env _ .hangUp)).trans (proceeds_notify env _ .releasePending)
  -- otherwise the new state, if it is one, is announced with the record
  all_goals
    have hy₁ : y₁.call.enabled = x.call.enabled ∧ y₁.call.revision = x.call.revision := by
      show (call₄.reported env r.status).enabled = _ ∧ (call₄.reported env r.status).revision = _
      rw [hreported]
      exact ⟨hcall₂.1, hcall₂.2.1⟩
    have hy₂ : x.Proceeds y₂ := by
      unfold y₂
      split
      · exact .notify hy₁.1 hy₁.2.ge le_rfl .callState
      · rename_i hsame
        exact .of_eq hy₁.1 hy₁.2 ((not_not.mp hsame).trans hcall₂.2.2) le_rfl
  · exact hy₂.trans (proceeds_notify env _ .ring)
  · exact hy₂

/-- A record that is not believed changes nothing or is announced as quarantined. -/
theorem proceeds_record (r : Clcc) : x.Proceeds (x.record env l r) := by
  have hcorrelate := proceeds_correlate x l
  unfold record
  dsimp only
  split_ifs
  · exact hcorrelate.trans (.of_eq rfl rfl rfl le_rfl)
  · exact .refl x
  · exact hcorrelate.trans (proceeds_notify env _ _)
  · exact hcorrelate.trans (proceeds_report env _ l r)
  · exact .refl x
  · exact proceeds_report env x l r

theorem proceeds_reconcileOk : x.Proceeds (x.reconcileOk env) := by
  unfold reconcileOk
  dsimp only
  split
  · exact .of_eq rfl rfl rfl le_rfl
  · split
    · exact .change (by rfl) (by rfl) _
    · exact .change (by exact enabled_complete) (by exact Nat.le_succ _) _

theorem proceeds_ring : x.Proceeds (x.ring env) := by
  unfold ring beginCall
  split_ifs
  · exact .change (by rfl) (by rfl) .ring
  · exact .change (by rfl) (by rfl) .ring
  · exact proceeds_notify env x .ring

/-- **A line that changes the state is announced.** -/
theorem proceeds_handle : x.Proceeds (x.handle env l) := by
  unfold handle
  split_ifs
  · obtain ⟨_, _, hclip⟩ := clipNumber_eq x.call l.raw
    rw [hclip]
    exact .change (by rfl) (by rfl) .callerId
  · exact .of_eq rfl rfl rfl le_rfl
  · exact proceeds_reconcileOk env x
  · unfold clcc
    cases clccStatus l.raw with
    | none => exact .refl x
    | some r => exact proceeds_record env x l r
  · exact proceeds_ring env x
  · -- the release of a call
    exact .change (by exact enabled_complete) (by exact Nat.le_succ _) .release
  · exact .refl x

theorem proceeds_checkGap : x.Proceeds (x.checkGap env l) := by
  have hsent := proceeds_issueAt env (x.withCall x.call.recover) .listCalls
  unfold checkGap
  split
  · exact .notify (by exact hsent.enabled) (by exact hsent.raises.revision) (by exact hsent.events) _
  · exact .refl x

theorem proceeds_line : x.Proceeds (x.line env l).1 := by
  unfold line
  split_ifs
  · exact .refl x
  · exact .refl x
  · have haccept : (x.checkGap env l).Proceeds ((x.checkGap env l).accept l) :=
      .of_eq rfl rfl rfl le_rfl
    exact ((proceeds_checkGap env x l).trans haccept).trans (proceeds_handle env _ l)

variable {env x l}

/-- So does a message, if it has a line for the daemon at all. -/
theorem proceeds_receive (env : Surroundings) (x : Context) (m : Message) :
    x.Proceeds (x.receive env m) := by
  unfold receive
  cases lineOf m with
  | none => exact .refl x
  | some l =>
    let y : Context := { x with commandFailed := false }
    have hcleared : x.Proceeds y := .of_eq rfl rfl rfl le_rfl
    have hline := hcleared.trans (proceeds_line env y l)
    dsimp only
    split
    · exact .fault hline.enabled hline.raises.revision hline.events
    · exact hline

/-! ## Requests and the timer -/

/-- What a request does before anything is published: if the state is new, it was carried out. -/
structure Carried (x : Context) (result : Context × ℤ) : Prop where
  enabled : result.1.call.enabled = x.call.enabled
  events : result.1.events = x.events
  moved : result.1.call.state ≠ x.call.state → result.2 = 0

theorem Carried.refused (x : Context) (result : ℤ) : x.Carried (x, result) :=
  ⟨rfl, rfl, fun h => absurd rfl h⟩

theorem Carried.issueAt {c : Call} (henabled : c.enabled = x.call.enabled) (command : AtCommand) :
    x.Carried ((x.withCall c).issueAt env command, 0) := by
  refine ⟨?_, events_issueAt _, fun _ => rfl⟩
  rw [issueAt_call, enabled_resolve]
  exact henabled

variable (env x l)

theorem carried_originate (origin : Endpoint) (number : Text) :
    x.Carried (x.originate env origin number) := by
  unfold originate
  split_ifs
  · exact .refused x _
  · exact .refused x _
  · exact .issueAt (by rfl) _

section

variable (endpoint : Endpoint)

theorem carried_answer : x.Carried (x.answer env endpoint) := by
  unfold answer
  split_ifs
  · exact .refused x _
  · exact .refused x _
  · exact .refused x _
  · exact .issueAt (by exact enabled_markActive) _

theorem carried_terminate : x.Carried (x.terminate env endpoint) := by
  unfold terminate
  split_ifs
  · exact .refused x _
  · exact .refused x _
  · exact .refused x _
  · exact .issueAt (by rfl) _

theorem carried_reject : x.Carried (x.reject env endpoint) := by
  unfold reject
  split
  · exact carried_terminate env x endpoint
  · exact .refused x _

theorem carried_sendDtmf (digit : UInt8) : x.Carried (x.sendDtmf env endpoint digit) := by
  unfold sendDtmf
  split_ifs
  · exact .refused x _
  · exact .refused x _
  · exact .refused x _
  · exact .refused x _
  · exact .issueAt (c := x.call) rfl _

/-- An action that is refused leaves the state alone. -/
theorem carried_action (action : Action) :
    x.Carried (x.operate env (action.operation endpoint)) := by
  let y : Context := { x with commandFailed := false }
  suffices h : y.Carried (x.operate env (action.operation endpoint)) from
    ⟨h.enabled, h.events, h.moved⟩
  cases action with
  | originate number => exact carried_originate env y endpoint number
  | answer => exact carried_answer env y endpoint
  | reject => exact carried_reject env y endpoint
  | hangup => exact carried_terminate env y endpoint
  | sendDtmf digit => exact carried_sendDtmf env y endpoint digit

/-- A tone does not change the state. -/
theorem event_of_moved (action : Action)
    (h : (x.operate env (action.operation endpoint)).1.call.state ≠ x.call.state) :
    action.faults = true ∧ action.event.isSome = true := by
  cases action with
  | sendDtmf digit => exact absurd (state_operate_of_rest env rfl rfl) h
  | _ => exact ⟨rfl, rfl⟩

end

/-- A request that changes the state succeeds, and is announced. -/
theorem proceeds_request (ready : Bool) (endpoint : Endpoint) (action : Action) :
    x.Proceeds (x.request env ready endpoint action) := by
  have hraises := raises_operate env x (action.operation endpoint)
  have hcarried := carried_action env x endpoint action
  have hmoved := event_of_moved env x endpoint action
  unfold request
  generalize x.operate env (action.operation endpoint) = result at *
  obtain ⟨y, result⟩ := result
  -- what is not published has left the state alone
  have hquiet : y.call.state = x.call.state → x.Proceeds y := fun hstate =>
    ⟨hcarried.enabled, hraises, hcarried.events.ge, fun h => absurd hstate h⟩
  dsimp only at *
  split_ifs with hdisabled hrefused hfailed hfaults hresult
  · exact .refl x
  · exact .of_eq rfl rfl rfl le_rfl
  · exact .fault hcarried.enabled hraises.revision hcarried.events.ge
  · exact hquiet (not_not.mp fun h => hfaults (hmoved h).1)
  · cases hevent : action.event with
    | none => exact hquiet (not_not.mp fun h => by simpa [hevent] using (hmoved h).2)
    | some event => exact .publishEvent hcarried.enabled hraises hcarried.events.ge event
  · have hstate : y.call.state = x.call.state := not_not.mp fun h => hresult (hcarried.moved h)
    cases action.event with
    | none => exact hquiet hstate
    | some event => exact hquiet hstate

variable {env x l}

/-- The fields of the call that no poll changes -/
theorem Proceeds.of_phone (hphone : y.phone = x.phone) (hevents : x.events ≤ y.events) :
    x.Proceeds y := by
  have hcall : y.call.bare = x.call.bare := congrArg Phone.call hphone
  have henabled := congrArg Call.enabled hcall
  have hrevision := congrArg Call.revision hcall
  have hstate := congrArg Call.state hcall
  exact .of_eq henabled hrevision hstate hevents

variable (env x l)

theorem proceeds_pollActive : x.Proceeds (x.operate env .pollActive).1 := by
  let y : Context := { x with commandFailed := false }
  refine .of_phone (pollActive_phone env y) ?_
  show x.events ≤ (y.pollActive env).1.events
  unfold pollActive
  split
  · exact le_rfl
  · rw [events_issueAt]
    exact le_rfl

theorem proceeds_pollIdle : x.Proceeds (x.operate env .pollIdle).1 := by
  let y : Context := { x with commandFailed := false }
  refine .of_phone (pollIdle_phone env y) ?_
  show x.events ≤ (y.pollIdle env).1.events
  unfold pollIdle
  split
  · exact le_rfl
  · rw [events_issueIdleAt]
    exact le_rfl

theorem proceeds_pollSetup : x.Proceeds (x.pollSetup env) := by
  have hpoll := proceeds_pollActive env x
  unfold pollSetup
  dsimp only
  split
  · exact .fault hpoll.enabled hpoll.raises.revision hpoll.events
  · exact hpoll

theorem proceeds_pollCall : x.Proceeds (x.pollCall env) := by
  have hpoll := proceeds_pollActive env x
  unfold pollCall
  dsimp only
  split
  · exact hpoll.trans (.of_eq rfl rfl rfl le_rfl)
  · exact hpoll

theorem proceeds_armFailed : x.Proceeds (x.armFailed env) := by
  unfold armFailed
  split
  · exact .fault rfl le_rfl le_rfl
  · exact .refl x

end Context

namespace VoiceDaemon

open Context (Proceeds)

variable {d : VoiceDaemon}

variable (env : Surroundings)

theorem proceeds_waitIdle (d : VoiceDaemon) : d.context.Proceeds (d.waitIdle env).context := by
  unfold waitIdle
  split_ifs
  · exact .of_eq rfl rfl rfl le_rfl
  · exact .refl _
  · exact .refl _

/-- An idle poll changes no state. -/
theorem proceeds_pollIdle (d : VoiceDaemon) : d.context.Proceeds (d.pollIdle env).context := by
  unfold pollIdle
  split
  · exact .refl _
  · have hpoll := Context.proceeds_pollIdle
      { env with direct := env.direct && !d.idleRequest } d.context
    dsimp only
    split
    · exact hpoll.trans (.of_eq rfl rfl rfl le_rfl)
    · exact hpoll

/-- The timer announces what it changes, in every state. -/
theorem proceeds_poll (t : Tick) (d : VoiceDaemon) : d.context.Proceeds (d.poll t).context := by
  have hsetup := Context.proceeds_pollSetup t.env d.context
  have hcall : d.context.Proceeds (if d.context.call.reconcilePending then d
      else d.withContext (d.context.pollCall t.env)).context := by
    split
    · exact .refl _
    · exact Context.proceeds_pollCall t.env d.context
  unfold poll
  split
  · -- in the other states the timer asks for nothing
    cases d.context.call.state with
    | outgoingSetup => exact hsetup
    | incomingRinging => exact hsetup
    | earlyMedia => exact hsetup
    | active => exact hcall
    | terminating => exact hcall
    | idle =>
      dsimp only
      split
      · exact (proceeds_waitIdle t.env d).trans (proceeds_pollIdle t.env _)
      · exact .refl _
    | disabled => exact .refl _
    | recovering => exact .refl _
    | fault => exact .refl _
  · exact .refl _

/-- A tick may announce that the port was not armed, and then polls. -/
theorem proceeds_tick (t : Tick) (d : VoiceDaemon) : d.context.Proceeds (d.tick t).context := by
  have harm : d.context.Proceeds
      (if t.armFails then d.withContext (d.context.armFailed t.env) else d).context := by
    split
    · exact Context.proceeds_armFailed t.env d.context
    · exact .refl _
  unfold tick
  dsimp only
  split
  · exact harm
  · exact harm.trans (proceeds_poll t _)

theorem proceeds_idleComplete (ok : Bool) (d : VoiceDaemon) :
    d.context.Proceeds (d.idleComplete env ok).context := by
  unfold idleComplete
  split_ifs
  · exact .refl _
  · exact .refl _
  · exact .of_eq rfl rfl rfl le_rfl

end VoiceDaemon

/-- The event switches the daemon on or off. -/
def DaemonEvent.switches (c : Call) : DaemonEvent → Bool
  | enable _ _ => !c.enabled
  | disable _ => true
  | _ => false

namespace VoiceDaemon

variable {d : VoiceDaemon} {e : DaemonEvent}

/-- **Every change of state is announced**, unless the daemon is switched on or off. -/
theorem proceeds_step (h : e.switches d.context.call = false) :
    d.context.Proceeds (d.step e).context := by
  cases e with
  | request env ready endpoint action =>
    exact Context.proceeds_request env d.context ready endpoint action
  -- a daemon that is on is not enabled again
  | enable env preparation =>
    have henabled : d.context.call.enabled = true := by simpa [DaemonEvent.switches] using h
    have hsame : d.context.enable env preparation = d.context := if_pos henabled
    show d.context.Proceeds (d.context.enable env preparation)
    rw [hsame]
    exact .refl _
  | disable env => cases h
  | message env m => exact Context.proceeds_receive env d.context m
  | armFailed env => exact Context.proceeds_armFailed env d.context
  | tick t => exact proceeds_tick t d
  | idleComplete env ok => exact proceeds_idleComplete env ok d

/-- How often the state changes along a run -/
def changes (d : VoiceDaemon) : List DaemonEvent → ℕ
  | [] => 0
  | e :: es =>
    (if (d.step e).context.call.state = d.context.call.state then 0 else 1) + (d.step e).changes es

/-- **No change of state is left out**: along a run, there is an event for each of them. -/
theorem changes_le_events (d : VoiceDaemon) (es : List DaemonEvent)
    (h : Along step (fun d e => e.switches d.context.call = false) d es) :
    d.context.events + d.changes es ≤ (run step d es).context.events := by
  induction es generalizing d with
  | nil => exact le_rfl
  | cons e es ih =>
    have hstep := proceeds_step h.1
    have hrest := ih (d.step e) h.2
    rw [changes, run_cons]
    split_ifs with hsame
    · have hmore := hstep.events
      omega
    · have hmore := hstep.moved hsame
      omega

theorem changes_of_recovery :
    let env := Surroundings.working (ascii "/dev/ttyUSB2")
    let d := initial.step (.enable env .ready)
    let ok := .message env (.line ⟨⟨ascii "/dev/ttyUSB2", 1, 1, 0, ascii "OK", 1, .terminal⟩, 0⟩)
    d.changes [ok] = 1 ∧ d.context.events + d.changes [ok] ≤ (run step d [ok]).context.events :=
  ⟨by decide +kernel, changes_le_events _ _ ⟨rfl, trivial⟩⟩

end VoiceDaemon

/-! ## Switching on and off -/

namespace Context

variable (env : Surroundings) (x : Context)

theorem raises_publishEvent (event : CallEvent) :
    x.call.Raises (x.publishEvent env event).call := by
  obtain ⟨_, hcall⟩ := publishEvent_call env x event
  rw [hcall]
  exact .of_eq rfl rfl

theorem raises_activate : x.call.Raises (x.activate env).call := by
  have henabled := raises_operate env x (.setEnabled true)
  have hrecovers := henabled.trans (raises_operate env _ .startRecovery)
  unfold activate
  dsimp only
  split
  · exact hrecovers.trans (raises_operate env _ (.setEnabled false))
  · exact hrecovers.trans (raises_publishEvent env _ .enabled)

theorem raises_enable (preparation : Preparation) :
    x.call.Raises (x.enable env preparation).call := by
  unfold enable
  split
  · exact .of_eq rfl rfl
  · cases preparation with
    | failed => exact .of_eq rfl rfl
    | restart => exact raises_operate env x .reenumerate
    | ready => exact raises_activate env x

end Context

/-- A new state has a new revision, whatever happens. -/
theorem VoiceDaemon.raises_step (d : VoiceDaemon) (e : DaemonEvent) :
    d.context.call.Raises (d.step e).context.call := by
  cases e with
  | enable env preparation => exact Context.raises_enable env d.context preparation
  | disable env =>
    exact (Context.raises_operate env d.context (.setEnabled false)).trans
      (Context.raises_publishEvent env _ .disabled)
  | _ => exact (proceeds_step rfl).raises

end QModem.Voip
