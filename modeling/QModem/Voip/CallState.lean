import QModem.At.LineQueue
import QModem.Lib.CMemory

/-!
# The Call of the Voice Daemon

`call_state.c` of `voipd`, with the callbacks that `daemon_core.c` passes to it.  The daemon has one
call.  Requests of its clients, timers and the lines of the modem change it; it sends commands to
the modem and publishes events.

`Context` is the call with what it has sent so far, and `Surroundings` is what an operation meets
outside: the clocks, the helper that runs the commands, and the file of the call history.

## Main results

- `Call.resolve_cases`: a command can select another port and changes nothing else of the call
- `Context.operated_operate`: what an operation that is no line does to the call
-/

namespace QModem.Voip

open Lib
open At (Text Correlation)

/-! ## Calls -/

/-- `enum qmodem_voip_state` -/
inductive CallState where
  | disabled
  | idle
  | outgoingSetup
  | incomingRinging
  | earlyMedia
  | active
  | terminating
  | recovering
  | fault
  deriving DecidableEq

/-- There is a call that nobody has hung up. -/
def CallState.live : CallState → Bool
  | outgoingSetup | incomingRinging | earlyMedia | active => true
  | disabled | idle | terminating | recovering | fault => false

def CallState.over : CallState → Bool
  | disabled | idle => true
  | _ => false

theorem CallState.not_over_of_live {s : CallState} (h : s.live = true) : s.over = false := by
  cases s <;> first | rfl | exact absurd h (by decide)

theorem CallState.ne_idle {s : CallState} (h : s.over = false) : s ≠ .idle := by
  rintro rfl
  exact absurd h (by decide)

/-- `enum qmodem_voip_endpoint` -/
inductive Endpoint where
  | none
  | browser
  | lanSip
  | cellular
  | externalSip
  | rj11
  deriving DecidableEq

/-- `endpoint_is_source` -/
def Endpoint.isSource : Endpoint → Bool
  | browser | lanSip | externalSip | rj11 => true
  | none | cellular => false

/-- `struct qmodem_voip_completed_call` -/
structure CompletedCall where
  startedAt : ℕ
  endedAt : ℕ
  durationSeconds : ℕ
  origin : Endpoint
  number : Text
  callerIdWithheld : Bool
  wasActive : Bool
  deriving DecidableEq

/-- `struct qmodem_voip_call`; `completed` is there while it is `pending`. -/
structure Call where
  state : CallState
  origin : Endpoint
  endpoint : Endpoint
  number : Text
  callerIdWithheld : Bool
  enabled : Bool
  atPort : Text
  restartEpoch : ℕ
  sequence : ℕ
  dropCount : ℕ
  revision : ℕ
  activeSinceMsec : ℕ
  startedAt : ℕ
  wasActive : Bool
  reconcileCommandId : ℕ
  reconcilePending : Bool
  reconcileSawData : Bool
  reconcileVoiceMisses : ℕ
  idlePoll : Bool
  answerOwner : Endpoint
  completed : Option CompletedCall
  deriving DecidableEq

/-- `QMODEM_VOIP_NUMBER_SIZE` -/
def numberSize : ℕ := 64

/-- `QMODEM_VOIP_AT_PORT_SIZE` -/
def atPortSize : ℕ := 64

/-- `valid_number` -/
def validNumber (number : Text) : Bool :=
  number ≠ [] && number.length < numberSize &&
    number.all fun c => isdigit c || c ∈ ascii "+*#,p"

/-- What an operation meets outside of the call.  `resolved` is the answer of `resolve_at_port`,
`executed` says that the command runs without an error, `direct` that an idle poll goes to the AT
daemon without the helper, and `appends` that the history takes a record, at each event anew. -/
structure Surroundings where
  time : ℕ
  monotonicMs : ℕ
  resolved : Option Text
  executed : Bool
  direct : Bool
  appends : ℕ → Bool

/-- Surroundings in which every command runs on the port. -/
def Surroundings.working (port : Text) : Surroundings :=
  ⟨1000, 500, some port, true, false, fun _ => true⟩

namespace Call

/-- `qmodem_voip_call_init` -/
def initial : Call where
  state := .disabled
  origin := .none
  endpoint := .none
  number := []
  callerIdWithheld := false
  enabled := false
  atPort := []
  restartEpoch := 0
  sequence := 0
  dropCount := 0
  revision := 0
  activeSinceMsec := 0
  startedAt := 0
  wasActive := false
  reconcileCommandId := 0
  reconcilePending := false
  reconcileSawData := false
  reconcileVoiceMisses := 0
  idlePoll := false
  answerOwner := .none
  completed := none

variable (env : Surroundings) (c : Call)

/-- `begin_call` -/
def beginCall : Call := if c.startedAt = 0 then { c with startedAt := env.time } else c

/-- `mark_call_active` -/
def markActive : Call :=
  let c := if c.activeSinceMsec = 0 then { c with activeSinceMsec := env.monotonicMs } else c
  { c.beginCall env with wasActive := true, state := .active }

/-- `qmodem_voip_call_duration_seconds` -/
def durationSeconds : ℕ :=
  if c.activeSinceMsec = 0 then 0 else (env.monotonicMs - c.activeSinceMsec) / 1000

/-- `qmodem_voip_call_touch` -/
def touch : Call := { c with revision := c.revision + 1 }

/-- `complete_call` -/
def complete : Call :=
  if c.startedAt = 0 || c.origin = .none || c.completed.isSome then c
  else
    { c with
      completed := some
        { startedAt := c.startedAt
          endedAt := env.time
          durationSeconds := c.durationSeconds env
          origin := c.origin
          number := c.number
          callerIdWithheld := c.callerIdWithheld
          wasActive := c.wasActive } }

/-- `clear_call` -/
def clear : Call :=
  { c.complete env with
    state := if c.enabled then .idle else .disabled
    origin := .none
    endpoint := .none
    number := []
    callerIdWithheld := false
    activeSinceMsec := 0
    startedAt := 0
    wasActive := false
    answerOwner := .none
    reconcileVoiceMisses := 0
    revision := c.revision + 1 }

/-- The call on another port, of which no line was seen. -/
def onPort (port : Text) : Call :=
  { c with
    atPort := port
    restartEpoch := 0
    sequence := 0
    dropCount := 0
    reconcileCommandId := 0 }

/-- `qmodem_voip_call_select_at_port`; nothing when it refuses the port. -/
def selectAtPort (port : Text) : Option Call :=
  if port = [] || atPortSize ≤ port.length then none
  else if c.atPort = port then some c
  else some (c.onPort port)

/-- What a command does to the call: it can select another port. -/
def resolve : Call := (env.resolved.bind c.selectAtPort).getD c

/-- The selected port, and the last line of it that was seen. -/
def position : Text × ℕ × ℕ := (c.atPort, c.restartEpoch, c.sequence)

/-- `qmodem_voip_call_set_enabled` -/
def setEnabled (enabled : Bool) : Call :=
  if enabled then
    { c with
      enabled := true
      state := if c.state = .disabled then .idle else c.state
      revision := c.revision + 1 }
  else
    { c.complete env with
      enabled := false
      state := .disabled
      origin := .none
      endpoint := .none
      number := []
      activeSinceMsec := 0
      startedAt := 0
      wasActive := false
      answerOwner := .none
      reconcilePending := false
      revision := c.revision + 1 }

variable {env c}

/-- A command may select another port. -/
theorem resolve_cases (env : Surroundings) (c : Call) : c.resolve env = c ∨
    ∃ port, env.resolved = some port ∧ c.atPort ≠ port ∧ c.resolve env = c.onPort port := by
  unfold resolve
  cases hport : env.resolved.bind c.selectAtPort with
  | none => exact .inl rfl
  | some call =>
    obtain ⟨port, hresolved, hselect⟩ := Option.bind_eq_some_iff.mp hport
    unfold selectAtPort at hselect
    split_ifs at hselect with hrefused hsame
    · exact .inl (Option.some.inj hselect).symm
    · exact .inr ⟨port, hresolved, hsame, (Option.some.inj hselect).symm⟩

theorem enabled_resolve : (c.resolve env).enabled = c.enabled := by
  obtain h | ⟨_, -, -, h⟩ := resolve_cases env c <;> rw [h]
  rfl

@[simp] theorem state_resolve : (c.resolve env).state = c.state := by
  obtain h | ⟨port, -, -, h⟩ := resolve_cases env c <;> rw [h]
  rfl

@[simp] theorem reconcilePending_resolve :
    (c.resolve env).reconcilePending = c.reconcilePending := by
  obtain h | ⟨port, -, -, h⟩ := resolve_cases env c <;> rw [h]
  rfl

end Call

/-! ## Commands and events -/

/-- The commands that the call sends to the modem. -/
inductive AtCommand where
  | dial (number : Text)
  | answer
  | hangUp
  | listCalls
  | tone (digit : UInt8)
  deriving DecidableEq

def AtCommand.text : AtCommand → Text
  | dial number => ascii "ATD" ++ number ++ ascii ";"
  | answer => ascii "ATA"
  | hangUp => ascii "AT+CHUP"
  | listCalls => ascii "AT+CLCC"
  | tone digit => ascii "AT+VTS=\"" ++ [digit] ++ ascii "\""

/-- The events that the call publishes about itself, and those that the daemon publishes for the
requests it has carried out. -/
inductive CallEvent where
  | eventGap
  | callerId
  | reconcileInconclusive
  | release
  | reconcileIdle
  | phantomClccQuarantined
  | releasePending
  | callState
  | ring
  | fault
  | enabled
  | disabled
  | originate
  | answer
  | reject
  | hangup
  deriving DecidableEq

inductive Output where
  | command (text : Text)
  | event (event : CallEvent)
  deriving DecidableEq

/-- The part of `qmodem_voip_context` that the call reads and writes, with what was sent and the
records of the call history. -/
structure Context where
  call : Call
  commandFailed : Bool
  outputs : List Output
  history : List CompletedCall

namespace Context

/-- The daemon starts. -/
def initial : Context := ⟨.initial, false, [], []⟩

variable (env : Surroundings) (x : Context)

def withCall (c : Call) : Context := { x with call := c }

/-- `run_at`: the port is looked up and selected, then the command is run. -/
def runAt (command : AtCommand) : Context × Bool :=
  match env.resolved.bind x.call.selectAtPort with
  | none => (x, false)
  | some call => ({ x with call, outputs := x.outputs ++ [.command command.text] }, env.executed)

/-- `qmodem_voip_issue_at` -/
def issueAt (command : AtCommand) : Context :=
  let (y, ok) := x.runAt env command
  if ok then y else { y with commandFailed := true }

/-- `qmodem_voip_issue_idle_at` -/
def issueIdleAt (command : AtCommand) : Context :=
  if env.direct then
    if env.executed then { x with outputs := x.outputs ++ [.command command.text] }
    else { x with commandFailed := true }
  else x.issueAt env command

/-- `qmodem_voip_publish_event`, as far as it concerns the call: a completed call goes to the
history. -/
def publishEvent (event : CallEvent) : Context :=
  let x : Context := { x with outputs := x.outputs ++ [Output.event event] }
  match x.call.completed with
  | none => x
  | some record =>
    if env.appends x.outputs.length then
      { x with call := { x.call with completed := none }, history := x.history ++ [record] }
    else x

/-- `notify` -/
def notify (event : CallEvent) : Context := (x.withCall x.call.touch).publishEvent env event

variable {env x}

theorem issueAt_call (command : AtCommand) :
    (x.issueAt env command).call = x.call.resolve env := by
  have hrun : (x.issueAt env command).call = (x.runAt env command).1.call := by
    unfold issueAt
    dsimp only
    split <;> rfl
  rw [hrun, runAt, Call.resolve]
  cases env.resolved.bind x.call.selectAtPort <;> rfl

/-- A command is sent, or it has failed. -/
theorem issueAt_outputs (command : AtCommand) :
    (x.issueAt env command).outputs = x.outputs ∧ (x.issueAt env command).commandFailed = true ∨
      (x.issueAt env command).outputs = x.outputs ++ [.command command.text] := by
  unfold issueAt runAt
  cases env.resolved.bind x.call.selectAtPort with
  | none => exact .inl ⟨rfl, rfl⟩
  | some call =>
    dsimp only
    split <;> exact .inr rfl

variable (env x)

theorem publishEvent_outputs (event : CallEvent) :
    (x.publishEvent env event).outputs = x.outputs ++ [.event event] := by
  unfold publishEvent
  dsimp only
  split
  · rfl
  · split <;> rfl

theorem issueIdleAt_call (command : AtCommand) :
    (x.issueIdleAt env command).call = x.call ∨
      (x.issueIdleAt env command).call = x.call.resolve env := by
  unfold issueIdleAt
  split_ifs
  · exact .inl rfl
  · exact .inl rfl
  · exact .inr (issueAt_call command)

/-- Publishing an event can move a completed call to the history. -/
theorem publishEvent_call (event : CallEvent) :
    ∃ completed, (x.publishEvent env event).call = { x.call with completed } := by
  unfold publishEvent
  dsimp only
  cases hcompleted : x.call.completed with
  | none => exact ⟨_, rfl⟩
  | some record =>
    dsimp only
    split
    · exact ⟨_, rfl⟩
    · exact ⟨_, rfl⟩

theorem notify_call (event : CallEvent) :
    ∃ completed, (x.notify env event).call =
      { x.call with revision := x.call.revision + 1, completed } :=
  publishEvent_call env (x.withCall x.call.touch) event

variable {env x}

@[simp] theorem notify_state (event : CallEvent) :
    (x.notify env event).call.state = x.call.state := by
  obtain ⟨completed, h⟩ := notify_call env x event
  rw [h]

@[simp] theorem notify_reconcilePending (event : CallEvent) :
    (x.notify env event).call.reconcilePending = x.call.reconcilePending := by
  obtain ⟨completed, h⟩ := notify_call env x event
  rw [h]

variable (env x)

/-! ## Requests -/

/-- `qmodem_voip_originate` -/
def originate (origin : Endpoint) (number : Text) : Context × ℤ :=
  if !x.call.enabled || !origin.isSource || !validNumber number then (x, -1)
  else if x.call.state ≠ .idle then (x, -3)
  else
    ((x.withCall
      { x.call with
        origin
        endpoint := .cellular
        number
        callerIdWithheld := false
        activeSinceMsec := 0
        startedAt := env.time
        wasActive := false
        answerOwner := .none
        reconcileVoiceMisses := 0
        state := .outgoingSetup
        revision := x.call.revision + 1 }).issueAt env (.dial number), 0)

/-- `qmodem_voip_answer` -/
def answer (endpoint : Endpoint) : Context × ℤ :=
  if !x.call.enabled || !endpoint.isSource then (x, -1)
  else if x.call.answerOwner ≠ .none then (x, -3)
  else if x.call.state ≠ .incomingRinging && x.call.state ≠ .earlyMedia then (x, -2)
  else
    let call := ({ x.call with answerOwner := endpoint }.markActive env).touch
    ((x.withCall call).issueAt env .answer, 0)

/-- `terminate` -/
def terminate (endpoint : Endpoint) : Context × ℤ :=
  if !x.call.enabled || !endpoint.isSource then (x, -1)
  else if x.call.state = .idle || x.call.state = .disabled then (x, 0)
  else if x.call.state = .terminating then (x, 0)
  else ((x.withCall { x.call with state := .terminating }.touch).issueAt env .hangUp, 0)

/-- `qmodem_voip_reject` -/
def reject (endpoint : Endpoint) : Context × ℤ :=
  if x.call.state = .incomingRinging || x.call.state = .earlyMedia then x.terminate env endpoint
  else (x, if x.call.state = .idle || x.call.state = .terminating then 0 else -2)

/-- `qmodem_voip_hangup` -/
def hangup (endpoint : Endpoint) : Context × ℤ := x.terminate env endpoint

/-- `qmodem_voip_send_dtmf` -/
def sendDtmf (endpoint : Endpoint) (digit : UInt8) : Context × ℤ :=
  if !x.call.enabled || !endpoint.isSource then (x, -1)
  else if x.call.state ≠ .active then (x, -2)
  else if x.call.origin ≠ endpoint && x.call.answerOwner ≠ endpoint then (x, -3)
  else if !(isdigit digit || digit ∈ ascii "*#ABCD") then (x, -4)
  else (x.issueAt env (.tone digit), 0)

/-- `qmodem_voip_start_recovery` -/
def startRecovery : Context × ℤ :=
  if !x.call.enabled then (x, -1)
  else
    let call : Call :=
      { x.call with
        state := .recovering
        reconcilePending := true
        reconcileCommandId := 0
        reconcileSawData := false }
    ((x.withCall call.touch).issueAt env .listCalls, 0)

/-- `qmodem_voip_poll_active` -/
def pollActive : Context × ℤ :=
  if !x.call.enabled || (!x.call.state.live && x.call.state ≠ .terminating) ||
      x.call.reconcilePending then (x, -1)
  else
    let call : Call := { x.call with reconcilePending := true, reconcileCommandId := 0 }
    ((x.withCall call).issueAt env .listCalls, 0)

/-- `qmodem_voip_poll_idle` -/
def pollIdle : Context × ℤ :=
  if !x.call.enabled || x.call.state ≠ .idle || x.call.reconcilePending then (x, -1)
  else
    let call : Call :=
      { x.call with
        reconcilePending := true
        reconcileCommandId := 0
        reconcileSawData := false
        idlePoll := true }
    ((x.withCall call).issueIdleAt env .listCalls, 0)

end Context

/-! ## Lines of the modem -/

/-- A line as `qmodem_voip_line` gets it. -/
structure Line where
  port : Text
  epoch : ℕ
  sequence : ℕ
  raw : Text
  correlation : Correlation
  commandId : ℕ
  dropCount : ℕ
  deriving DecidableEq

/-- A line of one port in its first epoch. -/
def Line.ofTty (sequence : ℕ) (raw : String) (correlation : Correlation) (commandId : ℕ) : Line :=
  ⟨ascii "/dev/ttyUSB2", 1, sequence, ascii raw, correlation, commandId, 0⟩

/-- `has_prefix` -/
def hasPrefix (start line : Text) : Bool := start.isPrefixOf line

/-- A text does not start in two ways. -/
theorem hasPrefix_exclusive {start other line : Text} (h : hasPrefix start line = true)
    (hother : (start.isPrefixOf other || other.isPrefixOf start) = false) :
    hasPrefix other line = false := by
  by_contra hne
  have hprefix := List.isPrefixOf_iff_prefix.mp h
  have hprefix' := List.isPrefixOf_iff_prefix.mp (Bool.not_eq_false _ ▸ hne)
  obtain hle | hle := List.prefix_or_prefix_of_prefix hprefix hprefix'
  · simp [List.isPrefixOf_iff_prefix.mpr hle] at hother
  · simp [List.isPrefixOf_iff_prefix.mpr hle] at hother

/-- What stands between the first two quotes. -/
def quoted (line : Text) : Option Text :=
  let rest := (line.dropWhile (· ≠ 34)).tail
  if 34 ∈ rest then some (rest.takeWhile (· ≠ 34)) else none

/-- `clip_number` -/
def Call.clipNumber (c : Call) (line : Text) : Call :=
  match quoted line with
  | none => c
  | some number =>
    if number = [] then { c with callerIdWithheld := true, number := [] }
    else if numberSize ≤ number.length then c
    else { c with number, callerIdWithheld := false }

/-- A record of the list of calls; its number may be empty. -/
structure Clcc where
  direction : ℤ
  status : ℤ
  mode : ℤ
  emptyNumber : Bool
  deriving DecidableEq

/-- A number with a comma behind it, cut to an `int`. -/
def intField (text : Text) : Option (ℤ × Text) :=
  match strtol text with
  | some (value, 44 :: rest) => some (value.bmod (2 ^ 32), rest)
  | _ => none

/-- A quote directly behind the first one. -/
def emptyQuotes (text : Text) : Bool :=
  match text.dropWhile (· ≠ 34) with
  | _ :: 34 :: _ => true
  | _ => false

/-- `clcc_status` -/
def clccStatus (line : Text) : Option Clcc :=
  match line.dropWhile (· ≠ 58) with
  | [] => none
  | _ :: fields => do
    let (_, fields) ← intField fields
    let (direction, fields) ← intField fields
    let (status, fields) ← intField fields
    let (mode, fields) ← intField fields
    return ⟨direction, status, mode, emptyQuotes fields⟩

/-- The line belongs to the answer to a command. -/
def Line.correlated (l : Line) : Bool :=
  l.commandId ≠ 0 && (l.correlation = .response || l.correlation = .terminal)

namespace Call

variable (env : Surroundings) (c : Call) (l : Line)

/-- The line is of the selected port and was not seen before. -/
def hears : Bool :=
  c.atPort ≠ [] && c.atPort = l.port &&
    !(c.restartEpoch ≠ 0 && l.epoch < c.restartEpoch) &&
    !(c.restartEpoch ≠ 0 && l.epoch = c.restartEpoch && l.sequence ≤ c.sequence)

/-- The `gap` of `qmodem_voip_line`: lines are missing before this one. -/
def gap : Bool :=
  c.restartEpoch ≠ 0 && (l.epoch ≠ c.restartEpoch || c.sequence + 1 < l.sequence)

/-- What a gap makes of the call. -/
def recover : Call :=
  { c with state := .recovering, reconcilePending := true, reconcileCommandId := 0 }

/-- The line ends the command whose answer is outstanding. -/
def endsReconcile : Bool :=
  c.reconcilePending && l.correlation = .terminal && l.commandId ≠ 0 &&
    (c.reconcileCommandId = 0 || l.commandId = c.reconcileCommandId)

/-- The first line of an answer tells the number of the command. -/
def correlate : Call :=
  if c.reconcileCommandId = 0 then { c with reconcileCommandId := l.commandId } else c

/-- No answer is outstanding any more. -/
def settled : Call :=
  { c with reconcilePending := false, reconcileCommandId := 0, reconcileSawData := false }

def missed : Call :=
  { c with
    idlePoll := false
    reconcileVoiceMisses := c.reconcileVoiceMisses + if c.state.live then 1 else 0 }

/-- The first record of a call that comes from the network. -/
def beginIncoming (r : Clcc) : Call :=
  if c.startedAt = 0 && r.direction = 1 && (r.status = 0 || r.status = 4 || r.status = 5) then
    { c with origin := .cellular, endpoint := .cellular }.beginCall env
  else c

def reported (status : ℤ) : Call :=
  if status = 0 then c.markActive env
  else if status = 1 || status = 2 then { c with state := .outgoingSetup }
  else if status = 3 then { c with state := .earlyMedia }
  else if status = 4 || status = 5 then
    if c.answerOwner = .none || c.state ≠ .active then { c with state := .incomingRinging } else c
  else c

/-- `qmodem_voip_line` does not ignore the line. -/
def takes : Bool := c.enabled && c.hears l

/-- The call with what a gap before the line makes of it. -/
def gapped : Call := if c.gap l then c.recover else c

/-- The record is in the answer to the command that is outstanding, and has no number. -/
def quarantines (r : Clcc) : Bool :=
  (c.reconcileCommandId = 0 || l.commandId = c.reconcileCommandId) && r.emptyNumber

/-- The record counts: it is of a voice call, and if an answer is outstanding, it is in this answer
and has a number. -/
def believes (r : Clcc) : Bool :=
  r.mode ≠ 1 && (!c.reconcilePending || (l.correlated && !c.quarantines l r))

variable {c l}

theorem gapped_of_gap (h : c.gap l = true) : c.gapped l = c.recover := if_pos h

theorem gapped_of_no_gap (h : c.gap l = false) : c.gapped l = c := by
  unfold gapped
  rw [h]
  rfl

theorem correlate_quarantines (r : Clcc) :
    (l.commandId = (c.correlate l).reconcileCommandId && r.emptyNumber) = c.quarantines l r := by
  unfold correlate quarantines
  split_ifs with hzero
  · simp [hzero]
  · simp [hzero]

end Call

namespace Context

variable (env : Surroundings) (x : Context) (l : Line)

/-- A gap starts a recovery, whatever the call was doing. -/
def checkGap : Context :=
  if x.call.gap l then ((x.withCall x.call.recover).issueAt env .listCalls).notify env .eventGap
  else x

/-- The line is the last one that was seen. -/
def accept : Context :=
  x.withCall
    { x.call with restartEpoch := l.epoch, sequence := l.sequence, dropCount := l.dropCount }

/-- `OK` after the list of calls: no record was among the lines since it was asked for.  A live call
is given up only when this happens twice. -/
def reconcileOk : Context :=
  if x.call.idlePoll && x.call.state = .idle then
    x.withCall { x.call.settled with idlePoll := false }
  else
    let call := x.call.missed
    -- only the calls that are alive are counted
    if call.state.live && call.reconcileVoiceMisses < 2 then
      (x.withCall call.settled).notify env .reconcileInconclusive
    else
      (x.withCall (call.clear env).settled).notify env
        (if call.state = .active then .release else .reconcileIdle)

/-- A record that is believed. -/
def report (r : Clcc) : Context :=
  let call := x.call.beginIncoming env r
  let call :=
    if (r.status = 4 || r.status = 5) && !r.emptyNumber then call.clipNumber l.raw else call
  if call.state = .terminating then
    -- the modem still has the call: it is told again
    let call : Call :=
      { call with reconcilePending := false, reconcileCommandId := 0, reconcileVoiceMisses := 0 }
    ((x.withCall call).issueAt env .hangUp).notify env .releasePending
  else
    let before := call.state
    let call : Call :=
      { call with reconcilePending := false, reconcileVoiceMisses := 0, idlePoll := false }
    let y := x.withCall (call.reported env r.status)
    let y := if y.call.state ≠ before then y.notify env .callState else y
    if before = .idle && y.call.state = .incomingRinging then y.notify env .ring else y

/-- A record of the call list.  While an answer is outstanding, only records in this answer count,
and of these only the ones with a number. -/
def record (r : Clcc) : Context :=
  let y := x.withCall (x.call.correlate l)
  if r.mode = 1 then
    -- a data call: it only tells that the answer has begun
    if x.call.reconcilePending && l.commandId ≠ 0 && l.correlation = .response then
      y.withCall { y.call with reconcileSawData := true }
    else x
  else if x.call.reconcilePending then
    if l.correlated then
      if l.commandId = y.call.reconcileCommandId && r.emptyNumber then
        y.notify env .phantomClccQuarantined
      else y.report env l r
    else x
  else x.report env l r

/-- The branch of `qmodem_voip_line` for `+CLCC:` -/
def clcc : Context :=
  match clccStatus l.raw with
  | none => x
  | some r => x.record env l r

/-- `RING` begins a call when there is none. -/
def ring : Context :=
  let y :=
    if x.call.state = .idle then
      x.withCall
        ({ x.call with
          origin := .cellular
          endpoint := .cellular
          state := .incomingRinging
          answerOwner := .none
          activeSinceMsec := 0
          wasActive := false }.beginCall env)
    else x
  y.notify env .ring

/-- The texts by which the modem says that the call has ended. -/
def isRelease (raw : Text) : Bool :=
  raw = ascii "NO CARRIER" || raw = ascii "BUSY" || raw = ascii "NO DIALTONE" ||
    hasPrefix (ascii "+CEND:") raw

/-- What `qmodem_voip_line` does with the text of a line. -/
def handle : Context :=
  if hasPrefix (ascii "+CLIP:") l.raw then
    (x.withCall (x.call.clipNumber l.raw)).notify env .callerId
  else if x.call.endsReconcile l &&
      (hasPrefix (ascii "ERROR") l.raw || hasPrefix (ascii "+CME ERROR") l.raw) then
    x.withCall { x.call.settled with idlePoll := false }
  else if x.call.endsReconcile l && l.raw = ascii "OK" then x.reconcileOk env
  else if hasPrefix (ascii "+CLCC:") l.raw then x.clcc env l
  else if hasPrefix (ascii "RING") l.raw then x.ring env
  else if isRelease l.raw then (x.withCall (x.call.clear env)).notify env .release
  else x

/-- `qmodem_voip_line` -/
def line : Context × ℤ :=
  if !x.call.enabled then (x, -1)
  else if !x.call.hears l then (x, 1)
  else (((x.checkGap env l).accept l).handle env l, 0)

variable {env x l}

theorem handle_of_clcc (hclcc : hasPrefix (ascii "+CLCC:") l.raw = true) :
    x.handle env l = x.clcc env l := by
  have hclip : hasPrefix (ascii "+CLIP:") l.raw = false := hasPrefix_exclusive hclcc (by decide)
  have herror : hasPrefix (ascii "ERROR") l.raw = false := hasPrefix_exclusive hclcc (by decide)
  have hcme : hasPrefix (ascii "+CME ERROR") l.raw = false := hasPrefix_exclusive hclcc (by decide)
  have hok : l.raw ≠ ascii "OK" := fun h => by rw [h] at hclcc; exact absurd hclcc (by decide)
  -- so none of the branches before the one for records applies
  simp [handle, hclcc, hclip, herror, hcme, hok]

/-- A line that is not taken leaves everything as it is. -/
theorem line_of_not_taken (h : x.call.takes l = false) :
    (x.line env l).1 = x := by
  unfold line
  split_ifs with henabled hhears
  · rfl
  · rfl
  · simp at henabled hhears
    simp [Call.takes, henabled, hhears] at h

/-- A line that is taken is handled after the gap before it. -/
theorem line_of_taken (h : x.call.takes l = true) :
    (x.line env l).1 = ((x.checkGap env l).accept l).handle env l := by
  obtain ⟨henabled, hhears⟩ := Bool.and_eq_true_iff.mp h
  simp [line, henabled, hhears]

end Context

/-! ## Operations -/

/-- What happens to the call: the functions of `call_state.h`, and what the daemon writes itself. -/
inductive Operation where
  | setEnabled (enabled : Bool)
  | selectAtPort (port : Text)
  | originate (origin : Endpoint) (number : Text)
  | answer (endpoint : Endpoint)
  | reject (endpoint : Endpoint)
  | hangup (endpoint : Endpoint)
  | sendDtmf (endpoint : Endpoint) (digit : UInt8)
  | startRecovery
  | pollActive
  | pollIdle
  | line (l : Line)
  /-- A command has failed, or the media path of an active call. -/
  | fault
  /-- The voice service starts again with the modem. -/
  | reenumerate
  /-- A poll is given up, since its command has failed. -/
  | abandonPoll
  /-- An idle poll is given up: its command has failed or was not answered in time. -/
  | abandonIdlePoll
  deriving DecidableEq

namespace Context

variable (env : Surroundings) (x : Context)

/-- The daemon sets the call to `FAULT`. -/
def fault : Context := (x.withCall { x.call with state := .fault }).notify env .fault

/-- `schedule_modem_reenumeration` -/
def reenumerate : Context :=
  x.withCall { x.call.setEnabled env true with state := .recovering }.touch

/-- An operation and its result.  The daemon clears `command_failed` before. -/
def operate (operation : Operation) : Context × ℤ :=
  let x := { x with commandFailed := false }
  match operation with
  | .setEnabled enabled => (x.withCall (x.call.setEnabled env enabled), 0)
  | .selectAtPort port =>
    match x.call.selectAtPort port with
    | none => (x, -1)
    | some call => (x.withCall call, if x.call.atPort = port then 0 else 1)
  | .originate origin number => x.originate env origin number
  | .answer endpoint => x.answer env endpoint
  | .reject endpoint => x.reject env endpoint
  | .hangup endpoint => x.hangup env endpoint
  | .sendDtmf endpoint digit => x.sendDtmf env endpoint digit
  | .startRecovery => x.startRecovery env
  | .pollActive => x.pollActive env
  | .pollIdle => x.pollIdle env
  | .line l => x.line env l
  | .fault => (x.fault env, 0)
  | .reenumerate => (x.reenumerate env, 0)
  | .abandonPoll =>
    (x.withCall { x.call with reconcilePending := false, reconcileCommandId := 0 }, 0)
  | .abandonIdlePoll =>
    (x.withCall
      { x.call with reconcilePending := false, reconcileCommandId := 0, idlePoll := false }, 0)

end Context

namespace Context

theorem operate_of_not_taken {x : Context} {l : Line} (env : Surroundings)
    (h : x.call.takes l = false) :
    (x.operate env (.line l)).1 = { x with commandFailed := false } := by
  let y : Context := { x with commandFailed := false }
  have hline : (y.line env l).1 = y := line_of_not_taken h
  exact hline

end Context

/-! ## What operations change -/

/-- The changes of state that do not come from a line. -/
inductive CallState.Moves : CallState → CallState → Prop where
  | stay (s : CallState) : Moves s s
  | enable : Moves disabled idle
  | disable (s : CallState) : Moves s disabled
  | dial : Moves idle outgoingSetup
  | answerRinging : Moves incomingRinging active
  | answerEarlyMedia : Moves earlyMedia active
  | hangUp (s : CallState) : Moves s terminating
  | recover (s : CallState) : Moves s recovering
  | fail (s : CallState) : Moves s fault

namespace Call

variable {env : Surroundings} {c c' : Call}

theorem complete_frame :
    (c.complete env).state = c.state ∧ (c.complete env).position = c.position := by
  unfold complete
  split <;> exact ⟨rfl, rfl⟩

theorem beginCall_frame :
    (c.beginCall env).state = c.state ∧ (c.beginCall env).position = c.position := by
  unfold beginCall
  split <;> exact ⟨rfl, rfl⟩

theorem beginIncoming_frame (r : Clcc) :
    (c.beginIncoming env r).state = c.state ∧ (c.beginIncoming env r).position = c.position := by
  unfold beginIncoming
  split
  · exact beginCall_frame
  · exact ⟨rfl, rfl⟩

theorem clipNumber_frame (line : Text) :
    (c.clipNumber line).state = c.state ∧ (c.clipNumber line).position = c.position := by
  unfold clipNumber
  split
  · exact ⟨rfl, rfl⟩
  · split_ifs <;> exact ⟨rfl, rfl⟩

theorem correlate_frame (l : Line) :
    (c.correlate l).state = c.state ∧ (c.correlate l).position = c.position := by
  unfold correlate
  split <;> exact ⟨rfl, rfl⟩

theorem position_clear : (c.clear env).position = c.position := complete_frame.2

theorem over_clear (env : Surroundings) (c : Call) : (c.clear env).state.over = true := by
  unfold clear
  split <;> rfl

theorem position_markActive : (c.markActive env).position = c.position := by
  refine beginCall_frame.2.trans ?_
  split <;> rfl

theorem position_reported (status : ℤ) : (c.reported env status).position = c.position := by
  unfold reported
  split_ifs
  · exact position_markActive
  all_goals rfl

/-- What an operation that is no line makes of the call, before it sends a command. -/
structure Changes (c c' : Call) : Prop where
  moves : c.state.Moves c'.state
  position : c'.position = c.position

theorem Changes.refl (c : Call) : c.Changes c := ⟨.stay _, rfl⟩

theorem changes_setEnabled (env : Surroundings) (c : Call) (enabled : Bool) :
    c.Changes (c.setEnabled env enabled) := by
  unfold setEnabled
  split_ifs with henabled hdisabled
  · exact ⟨hdisabled ▸ .enable, rfl⟩
  · exact ⟨.stay _, rfl⟩
  · exact ⟨.disable _, complete_frame.2⟩

/-- The ways in which an operation that is no line can end. -/
inductive Operated (env : Surroundings) (operation : Operation) (c : Call) : Call → Prop where
  | quiet {c' : Call} (h : c.Changes c') : Operated env operation c c'
  | sends {c' : Call} (h : c.Changes c') : Operated env operation c (c'.resolve env)
  | selects {port : Text} (h : operation = .selectAtPort port) (hother : c.atPort ≠ port) :
      Operated env operation c (c.onPort port)

theorem operated_selectAtPort (env : Surroundings) {port : Text}
    (h : c.selectAtPort port = some c') : Operated env (.selectAtPort port) c c' := by
  unfold selectAtPort at h
  split_ifs at h with hrefused hsame
  · cases h
    exact .quiet (.refl _)
  · cases h
    exact .selects rfl hsame

end Call

namespace Context

open Call (Operated Changes)

variable (env : Surroundings) (operation : Operation) (x : Context)

theorem operated_originate (origin : Endpoint) (number : Text) :
    Operated env operation x.call (x.originate env origin number).1.call := by
  unfold originate
  split_ifs with hrefused hidle
  · exact .quiet (.refl _)
  · exact .quiet (.refl _)
  · rw [issueAt_call]
    exact .sends ⟨(not_not.mp hidle) ▸ .dial, rfl⟩

variable (endpoint : Endpoint)

/-- Answering keeps to what an operation can do. -/
theorem operated_answer : Operated env operation x.call (x.answer env endpoint).1.call := by
  unfold answer
  split_ifs with hrefused howner hstate
  · exact .quiet (.refl _)
  · exact .quiet (.refl _)
  · exact .quiet (.refl _)
  · rw [issueAt_call]
    refine .sends ⟨?_, Call.position_markActive⟩
    obtain h | h : x.call.state = .incomingRinging ∨ x.call.state = .earlyMedia := by
      simpa [Classical.or_iff_not_imp_left] using hstate
    · exact h ▸ .answerRinging
    · exact h ▸ .answerEarlyMedia

theorem operated_terminate : Operated env operation x.call (x.terminate env endpoint).1.call := by
  unfold terminate
  split_ifs
  · exact .quiet (.refl _)
  · exact .quiet (.refl _)
  · exact .quiet (.refl _)
  · rw [issueAt_call]
    exact .sends ⟨.hangUp _, rfl⟩

theorem operated_reject : Operated env operation x.call (x.reject env endpoint).1.call := by
  unfold reject
  split
  · exact operated_terminate env operation x endpoint
  · exact .quiet (.refl _)

/-- So does a tone. -/
theorem operated_sendDtmf (digit : UInt8) :
    Operated env operation x.call (x.sendDtmf env endpoint digit).1.call := by
  unfold sendDtmf
  split_ifs
  · exact .quiet (.refl _)
  · exact .quiet (.refl _)
  · exact .quiet (.refl _)
  · exact .quiet (.refl _)
  · rw [issueAt_call]
    exact .sends (.refl _)

theorem operated_startRecovery : Operated env operation x.call (x.startRecovery env).1.call := by
  unfold startRecovery
  split
  · exact .quiet (.refl _)
  · rw [issueAt_call]
    exact .sends ⟨.recover _, rfl⟩

theorem operated_pollActive : Operated env operation x.call (x.pollActive env).1.call := by
  unfold pollActive
  split
  · exact .quiet (.refl _)
  · rw [issueAt_call]
    exact .sends ⟨.stay _, rfl⟩

theorem operated_issueIdleAt {c : Call} (h : x.call.Changes c) (command : AtCommand) :
    Operated env operation x.call ((x.withCall c).issueIdleAt env command).call := by
  obtain hsame | hsent := issueIdleAt_call env (x.withCall c) command
  · exact hsame ▸ .quiet h
  · exact hsent ▸ .sends h

theorem operated_pollIdle : Operated env operation x.call (x.pollIdle env).1.call := by
  unfold pollIdle
  split
  · exact .quiet (.refl _)
  · apply operated_issueIdleAt
    exact ⟨.stay _, rfl⟩

theorem changes_fault : x.call.Changes (x.fault env).call := by
  unfold fault
  obtain ⟨completed, hcall⟩ := notify_call env (x.withCall { x.call with state := .fault }) .fault
  rw [hcall]
  exact ⟨.fail _, rfl⟩

/-- Every operation that is no line ends in one of these ways. -/
theorem operated_operate (hline : ∀ l, operation ≠ .line l) :
    Operated env operation x.call (x.operate env operation).1.call := by
  -- clearing the flag leaves the call as it is
  let y : Context := { x with commandFailed := false }
  cases operation with
  | setEnabled enabled => exact .quiet (Call.changes_setEnabled env y.call enabled)
  | selectAtPort port =>
    unfold operate
    dsimp only
    cases hselect : x.call.selectAtPort port with
    | none => exact .quiet (.refl _)
    | some call => exact Call.operated_selectAtPort env hselect
  | originate origin number => exact operated_originate env _ y origin number
  | answer endpoint => exact operated_answer env _ y endpoint
  | reject endpoint => exact operated_reject env _ y endpoint
  | hangup endpoint => exact operated_terminate env _ y endpoint
  | sendDtmf endpoint digit => exact operated_sendDtmf env _ y endpoint digit
  | startRecovery => exact operated_startRecovery env _ y
  | pollActive => exact operated_pollActive env _ y
  | pollIdle => exact operated_pollIdle env _ y
  | line l => exact absurd rfl (hline l)
  | fault => exact .quiet (changes_fault env y)
  | reenumerate => exact .quiet ⟨.recover _, (Call.changes_setEnabled env y.call true).position⟩
  | abandonPoll => exact .quiet ⟨.stay _, rfl⟩
  | abandonIdlePoll => exact .quiet ⟨.stay _, rfl⟩

end Context

end QModem.Voip
