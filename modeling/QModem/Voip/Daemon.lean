import QModem.Voip.EventGap

/-!
# The Voice Daemon

`daemon_core.c` of `voipd` around the call: the methods that its clients call, the messages about
lines of the modem, and the timer that asks for the list of calls.

Left out is the media path.  Whether it can be prepared, and whether the helper that arms it fails,
comes with the event.  Timers of a process that ends itself are left out as well.

## Main results

- `VoiceDaemon.step`: what an event does
- `Context.granted_originate_iff`: when a request for a call is granted
- `Context.request_hangup_call`: a hang-up makes no daemon idle
- `VoiceDaemon.tick_of_recovering`: the timer does nothing while the daemon is recovering
-/

namespace QModem.Voip

open Lib
open At (Text Message)

/-! ## Requests -/

/-- The methods that `action_call` implements. -/
inductive Action where
  | originate (number : Text)
  | answer
  | reject
  | hangup
  | sendDtmf (digit : UInt8)

namespace Action

def operation (endpoint : Endpoint) : Action → Operation
  | originate number => .originate endpoint number
  | answer => .answer endpoint
  | reject => .reject endpoint
  | hangup => .hangup endpoint
  | sendDtmf digit => .sendDtmf endpoint digit

/-- The event that is published when the request was carried out. -/
def event : Action → Option CallEvent
  | originate _ => some .originate
  | answer => some .answer
  | reject => some .reject
  | hangup => some .hangup
  | sendDtmf _ => none

/-- A call is neither made nor answered without the media path. -/
def refused (c : Call) (ready : Bool) : Action → Bool
  | originate _ => c.state ≠ .idle || !ready
  | answer => !ready
  | _ => false

/-- A tone that could not be sent is no fault. -/
def faults : Action → Bool
  | sendDtmf _ => false
  | _ => true

end Action

/-- A command reaches the modem, which carries it out. -/
def Surroundings.runs (env : Surroundings) : Bool :=
  env.executed && env.resolved.any fun port => port ≠ [] && port.length < atPortSize

namespace Context

variable (env : Surroundings) (x : Context)

/-- `action_call` -/
def request (ready : Bool) (endpoint : Endpoint) (action : Action) : Context :=
  if !x.call.enabled then x
  else if action.refused x.call ready then { x with commandFailed := false }
  else
    let (y, result) := x.operate env (action.operation endpoint)
    if y.commandFailed then
      if action.faults then y.fault env else y
    else
      match action.event with
      | some event => if result = 0 then y.publishEvent env event else y
      | none => y

/-- The status that `action_call` returns is the one for success. -/
def granted (ready : Bool) (endpoint : Endpoint) (action : Action) : Bool :=
  let (y, result) := x.operate env (action.operation endpoint)
  x.call.enabled && !action.refused x.call ready && !y.commandFailed && result = 0

/-! ## Enabling and disabling -/

/-- `activate_runtime`, once everything else is prepared -/
def activate : Context :=
  let x := (x.operate env (.setEnabled true)).1
  let (y, result) := x.operate env .startRecovery
  if result ≠ 0 || y.commandFailed then (y.operate env (.setEnabled false)).1
  else y.publishEvent env .enabled

/-- What the preparation of the modem ends with. -/
inductive Preparation where
  | failed
  /-- The modem has to start again, and then the daemon starts again, too. -/
  | restart
  | ready

/-- `enable_method` and `qmodem_voip_activation_timer` -/
def enable (preparation : Preparation) : Context :=
  if x.call.enabled then x
  else
    match preparation with
    | .failed => x
    | .restart => (x.operate env .reenumerate).1
    | .ready => x.activate env

/-- `disable_method`, if the setting can be stored and the modem restored -/
def disable : Context := ((x.operate env (.setEnabled false)).1).publishEvent env .disabled

/-- `serial_arm_process_done`, if the helper has failed -/
def armFailed : Context := if x.call.state = .active then x.fault env else x

/-! ## The timer -/

/-- A poll while the call is being set up: without an answer of the modem the call is lost. -/
def pollSetup : Context :=
  let y := (x.operate env .pollActive).1
  if y.commandFailed then y.fault env else y

/-- A poll of a call that is active or being hung up. -/
def pollCall : Context :=
  let y := (x.operate env .pollActive).1
  if y.commandFailed then (y.operate env .abandonPoll).1 else y

/-! ## Requests for a call -/

variable {env x} {endpoint : Endpoint}

/-- A command that cannot be run is remembered. -/
theorem issueAt_commandFailed (command : AtCommand) :
    (x.issueAt env command).commandFailed = (x.commandFailed || !env.runs) := by
  have hselect : (env.resolved.bind x.call.selectAtPort).isSome =
      env.resolved.any fun port => port ≠ [] && port.length < atPortSize := by
    cases env.resolved with
    | none => rfl
    | some port =>
      simp only [Option.bind_some, Option.any_some, Call.selectAtPort]
      grind
  unfold issueAt runAt Surroundings.runs
  rw [← hselect]
  cases env.resolved.bind x.call.selectAtPort with
  | none => simp
  | some call => cases env.executed <;> simp

/-- A call is made for an enabled and idle daemon, with its media path and a modem that obeys. -/
theorem granted_originate_iff {ready : Bool} {number : Text} :
    x.granted env ready endpoint (.originate number) = true ↔
      x.call.enabled = true ∧ x.call.state = .idle ∧ ready = true ∧ endpoint.isSource = true ∧
        validNumber number = true ∧ env.runs = true := by
  simp only [granted, Action.operation, Action.refused, operate, originate]
  split_ifs with hinvalid hbusy
  · refine iff_of_false (by simp) ?_
    rintro ⟨henabled, -, -, hsource, hvalid, -⟩
    simp [henabled, hsource, hvalid] at hinvalid
  · simp [hbusy]
  · simp only [Bool.or_eq_true, Bool.not_eq_true', not_or, Bool.not_eq_false] at hinvalid
    simp [issueAt_commandFailed, withCall, hinvalid, not_not.mp hbusy]

/-- What a request to hang up can do. -/
theorem terminate_cases (env : Surroundings) (x : Context) (hsource : endpoint.isSource = true) :
    x.terminate env endpoint = (x, 0) ∨ x.call.enabled = false ∨ x.call.state ≠ .idle ∧
      (x.terminate env endpoint).1.call.enabled = x.call.enabled ∧
        (x.terminate env endpoint).1.call.state = .terminating := by
  unfold terminate
  split_ifs with hrefused hover hterminating
  · exact .inr (.inl (by simpa [hsource] using hrefused))
  · exact .inl rfl
  · exact .inl rfl
  · refine .inr (.inr ⟨fun hidle => hover (by simp [hidle]), ?_, ?_⟩)
    · rw [issueAt_call, Call.enabled_resolve]
      rfl
    · rw [issueAt_call, Call.state_resolve]
      rfl

/-- **A hang-up makes no daemon idle**: the call is over only when the modem says so. -/
theorem request_hangup_call (env : Surroundings) (ready : Bool) (x : Context)
    (hsource : endpoint.isSource = true) :
    (x.request env ready endpoint .hangup).call.enabled = x.call.enabled ∧
      ((x.request env ready endpoint .hangup).call.state = .idle ↔ x.call.state = .idle) := by
  let y : Context := { x with commandFailed := false }
  unfold request
  dsimp only [Action.operation, Action.refused, Action.faults, Action.event]
  split
  · exact ⟨rfl, .rfl⟩
  · rename_i hon
    simp only [Bool.false_eq_true, if_false, if_true]
    rw [show x.operate env (.hangup endpoint) = y.terminate env endpoint from rfl]
    obtain hstays | hoff | ⟨hbusy, henabled, hstate⟩ := terminate_cases env y hsource
    · -- there is nothing to hang up
      obtain ⟨_, hcall⟩ := publishEvent_call env y .hangup
      rw [hstays, if_neg Bool.false_ne_true, if_pos rfl, hcall]
      exact ⟨rfl, .rfl⟩
    · exact absurd (by rw [show x.call.enabled = false from hoff]; rfl) hon
    · -- the call is being hung up, or the command has failed, which is a fault
      split_ifs with hfailed hresult
      · obtain ⟨_, hcall⟩ := notify_call env
          ((y.terminate env endpoint).1.withCall
            { (y.terminate env endpoint).1.call with state := .fault }) .fault
        rw [fault, hcall]
        exact ⟨henabled, iff_of_false nofun hbusy⟩
      · obtain ⟨_, hcall⟩ := publishEvent_call env (y.terminate env endpoint).1 .hangup
        rw [hcall]
        exact ⟨henabled, iff_of_false (hstate.trans_ne nofun) hbusy⟩
      · exact ⟨henabled, iff_of_false (hstate.trans_ne nofun) hbusy⟩

end Context

/-- What the timer meets: whether the media path has to be armed and this fails, whether it is being
armed, and whether the modem is polled without a call. -/
structure Tick where
  env : Surroundings
  armFails : Bool
  armPending : Bool
  idleClccPoll : Bool

/-- The daemon: `idleWaits` counts the ticks that an idle poll has waited, and `idleRequest` is set
while the AT daemon has not answered the request for it. -/
structure VoiceDaemon where
  context : Context
  idleWaits : ℕ
  idleRequest : Bool

namespace VoiceDaemon

def initial : VoiceDaemon := ⟨.initial, 0, false⟩

variable (d : VoiceDaemon)

def withContext (x : Context) : VoiceDaemon := { d with context := x }

/-- An idle poll that was not answered in five ticks is given up. -/
def waitIdle (env : Surroundings) : VoiceDaemon :=
  if d.context.call.reconcilePending && d.context.call.idlePoll then
    if 5 ≤ d.idleWaits + 1 then
      ⟨(d.context.operate env .abandonIdlePoll).1, d.idleWaits + 1, false⟩
    else { d with idleWaits := d.idleWaits + 1 }
  else d

/-- The next idle poll.  The AT daemon has one request at a time. -/
def pollIdle (env : Surroundings) : VoiceDaemon :=
  if d.context.call.reconcilePending then d
  else
    let env : Surroundings := { env with direct := env.direct && !d.idleRequest }
    let y := (d.context.operate env .pollIdle).1
    if y.commandFailed then ⟨(y.operate env .abandonIdlePoll).1, 0, d.idleRequest⟩
    else ⟨y, 0, d.idleRequest || env.direct⟩

/-- What `qmodem_voip_call_timer` does in each state, once the media path is armed. -/
def poll (t : Tick) : VoiceDaemon :=
  if d.context.call.enabled then
    match d.context.call.state with
    | .outgoingSetup | .incomingRinging | .earlyMedia => d.withContext (d.context.pollSetup t.env)
    | .active | .terminating =>
      if d.context.call.reconcilePending then d else d.withContext (d.context.pollCall t.env)
    | .idle => if t.idleClccPoll then (d.waitIdle t.env).pollIdle t.env else d
    -- a recovery is not polled, whether or not its list is outstanding
    | .disabled | .recovering | .fault => d
  else d

/-- `qmodem_voip_call_timer` -/
def tick (t : Tick) : VoiceDaemon :=
  let d := if t.armFails then d.withContext (d.context.armFailed t.env) else d
  if t.armPending then d else d.poll t

/-- `idle_at_complete`: the AT daemon has answered the request for an idle poll. -/
def idleComplete (env : Surroundings) (ok : Bool) : VoiceDaemon :=
  if !d.idleRequest then d
  else if ok || !d.context.call.idlePoll then { d with idleRequest := false }
  else ⟨(d.context.operate env .abandonIdlePoll).1, d.idleWaits, false⟩

end VoiceDaemon

inductive DaemonEvent where
  | request (env : Surroundings) (ready : Bool) (endpoint : Endpoint) (action : Action)
  | enable (env : Surroundings) (preparation : Context.Preparation)
  | disable (env : Surroundings)
  | message (env : Surroundings) (m : Message)
  | armFailed (env : Surroundings)
  | tick (t : Tick)
  | idleComplete (env : Surroundings) (ok : Bool)

namespace VoiceDaemon

def step (d : VoiceDaemon) : DaemonEvent → VoiceDaemon
  | .request env ready endpoint action =>
    d.withContext (d.context.request env ready endpoint action)
  | .enable env preparation => d.withContext (d.context.enable env preparation)
  | .disable env => d.withContext (d.context.disable env)
  | .message env m => d.withContext (d.context.receive env m)
  | .armFailed env => d.withContext (d.context.armFailed env)
  | .tick t => d.tick t
  | .idleComplete env ok => d.idleComplete env ok

/-- While the daemon is recovering, the timer does nothing. -/
theorem tick_of_recovering {d : VoiceDaemon} (h : d.context.call.state = .recovering) (t : Tick) :
    d.tick t = d := by
  have harm : (if t.armFails then d.withContext (d.context.armFailed t.env) else d) = d := by
    split
    · simp [withContext, Context.armFailed, h]
    · rfl
  have hpoll : d.poll t = d := by
    unfold poll
    rw [h]
    exact ite_self d
  dsimp only [tick]
  rw [harm, hpoll]
  exact ite_self d

end VoiceDaemon

end QModem.Voip
