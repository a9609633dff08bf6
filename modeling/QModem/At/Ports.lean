import QModem.At.Leases

/-!
# The Ports of the AT Daemon

`port_manager.c` of `ubus_at_daemon` and the methods of `main.c` that reach a port.  The daemon
keeps an instance for each port that was opened or written to.  An instance is created by `open` and
`sendat`, opened again by the monitor when its device comes back, and destroyed by `close`.

What a step does to the device of an instance is recorded in `PortEffect`.

## Main results

- `Daemon.acts_outcome`: the cases of a step, which touches at most one instance
-/

namespace QModem.At

open Lib List

/-! ## Port instances -/

/-- The path of an instance, with a terminator in `MAX_PORT_PATH_SIZE` bytes. -/
abbrev PortPath := { path : Text // path.length < maxPortPathSize }

/-- `strncpy` into `port_path` cuts off what does not fit. -/
def PortPath.ofText (text : Text) : PortPath :=
  ⟨text.take (maxPortPathSize - 1), by
    rw [List.length_take]
    exact (Nat.min_le_left _ _).trans_lt (by decide)⟩

structure Settings where
  baudrate : ℤ
  databits : ℤ
  parity : ℤ
  stopbits : ℤ
  deriving DecidableEq

/-- `115200` with the defaults of `const.h` -/
def Settings.default : Settings := ⟨115200, 8, 0, 1⟩

/-- `at_port_instance_t` without its buffers.  `handle` stands for its address, and `readerRuns`
says that its reader thread was started and has not ended. -/
structure PortInstance where
  handle : ℕ
  path : PortPath
  configured : Settings
  hasFd : Bool
  isOpen : Bool
  readerThreadValid : Bool
  readerRuns : Bool
  restartEpoch : ℕ
  lineSequence : ℕ
  lastCheckTime : ℤ
  checkInterval : ℤ
  deriving DecidableEq

/-- What is done to the device of an instance. -/
inductive PortAction where
  | wrote (data : Text)
  /-- The device was opened and given its settings. -/
  | configured (settings : Settings)
  | closed
  | destroyed
  deriving DecidableEq

structure PortEffect where
  handle : ℕ
  path : PortPath
  action : PortAction
  deriving DecidableEq

/-- How the device answers while it is opened. -/
structure Device where
  /-- `fcntl` accepts the descriptor. -/
  fdValid : Bool
  /-- `access` finds the device. -/
  present : Bool
  opens : Bool
  threadStarts : Bool

/-- What a function on an instance leaves behind; `ok` is its return value. -/
structure PortOutcome where
  port : PortInstance
  effects : List PortEffect
  ok : Bool

namespace PortInstance

def effect (port : PortInstance) (action : PortAction) : PortEffect := ⟨port.handle, port.path, action⟩

/-- `stop_reader`, not called by the reader itself -/
def stopReader (port : PortInstance) : PortInstance :=
  if port.readerThreadValid then { port with readerThreadValid := false, readerRuns := false }
  else port

/-- `mark_port_closed` -/
def markPortClosed (port : PortInstance) : PortInstance := { port with hasFd := false, isOpen := false }

/-- `close_at_port` -/
def closeAtPort (port : PortInstance) : PortOutcome where
  port := port.stopReader.markPortClosed
  effects := if port.hasFd then [port.effect .closed] else []
  ok := true

def alreadyOpen (port : PortInstance) (settings : Settings) (device : Device) : Bool :=
  port.isOpen && port.hasFd && port.readerThreadValid && port.configured = settings && device.fdValid

/-- `at_port_advance_restart_epoch` -/
def advanceRestartEpoch (port : PortInstance) : PortInstance :=
  { port with restartEpoch := port.restartEpoch + 1 }

/-- `open_at_port` -/
def openAtPort (port : PortInstance) (settings : Settings) (device : Device) : PortOutcome :=
  if port.alreadyOpen settings device then ⟨port, [], true⟩
  else
    let closed := port.closeAtPort
    if !device.present || !device.opens then ⟨closed.port, closed.effects, false⟩
    else
      let opened := { closed.port.advanceRestartEpoch with configured := settings }
      let effects := closed.effects ++ [port.effect (.configured settings)]
      if device.threadStarts then
        ⟨{ opened with hasFd := true, isOpen := true, readerThreadValid := true, readerRuns := true },
          effects, true⟩
      else
        -- the epoch has advanced although the port is closed again
        ⟨opened, effects ++ [port.effect .closed], false⟩

def reconnectSettings (port : PortInstance) : Settings where
  baudrate := if 0 < port.configured.baudrate then port.configured.baudrate else 115200
  databits := if 0 < port.configured.databits then port.configured.databits else 8
  parity := port.configured.parity
  stopbits := if 0 < port.configured.stopbits then port.configured.stopbits else 1

/-- `check_and_reconnect_port`; `present` is the answer of its own `access`. -/
def checkAndReconnectPort (port : PortInstance) (time : ℤ) (present : Bool) (device : Device) :
    PortOutcome :=
  if time - port.lastCheckTime < port.checkInterval then ⟨port, [], true⟩
  else
    let checked := { port with lastCheckTime := time }
    if !checked.isOpen then
      if present then checked.openAtPort checked.reconnectSettings device else ⟨checked, [], true⟩
    else if !present then checked.closeAtPort
    else if checked.hasFd && !device.fdValid then
      let closed := checked.closeAtPort
      let opened := closed.port.openAtPort checked.reconnectSettings device
      { opened with effects := closed.effects ++ opened.effects }
    else ⟨checked, [], true⟩

/-- The reader thread ends after an error. -/
def readFails (port : PortInstance) : PortInstance :=
  if port.readerRuns && port.readerThreadValid then { port with isOpen := false, readerRuns := false }
  else { port with readerRuns := false }

/-- `at_port_next_line_event_state` -/
def nextLineEventState (port : PortInstance) : PortInstance :=
  { port with lineSequence := port.lineSequence + 1 }

end PortInstance

/-! ## Commands -/

/-- `isspace` -/
def isSpace (c : UInt8) : Bool := c = 32 || (9 ≤ c && c ≤ 13)

def hexValue (c : UInt8) : Option ℕ :=
  if 48 ≤ c && c ≤ 57 then some (c.toNat - 48)
  else if 65 ≤ c && c ≤ 70 then some (c.toNat - 55)
  else if 97 ≤ c && c ≤ 102 then some (c.toNat - 87)
  else none

/-- `strtol` in base 16 on a text of two bytes, cut to a byte. -/
def strtolByte (high low : UInt8) : UInt8 :=
  match hexValue high, hexValue low with
  | some h, some l => UInt8.ofNat (16 * h + l)
  | some h, none => UInt8.ofNat h
  | none, some l =>
    if isSpace high || high = 43 then UInt8.ofNat l else if high = 45 then 0 - UInt8.ofNat l else 0
  | none, none => 0

/-- `hex_to_string` on a text of even length -/
def hexToString : Text → Text
  | high :: low :: rest => strtolByte high low :: hexToString rest
  | _ => []

/-- The bytes a command is sent as; `allocated` says that there is memory for them. -/
def commandBytes (cmd terminator : Text) (isRaw allocated : Bool) : Option Text :=
  if isRaw then
    if cmd.length = 0 || cmd.length % 2 ≠ 0 || !allocated then none else some (hexToString cmd)
  else if !allocated then none else some (cmd ++ terminator)

/-- What the system does while a command is sent. -/
structure SendAnswers where
  device : Device
  allocated : Bool
  /-- The bytes `write` took, if it did not fail. -/
  written : Option ℕ

namespace PortInstance

/-- `send_at_command_only` and `send_at_command_with_response` up to the wait for the response; they
differ in what they put after the command. -/
def sendCommand (port : PortInstance) (cmd terminator : Text) (isRaw : Bool) (answers : SendAnswers) :
    PortOutcome :=
  let opened : PortOutcome :=
    if port.isOpen then ⟨port, [], true⟩ else port.openAtPort .default answers.device
  if !opened.ok then opened
  else
    match commandBytes cmd terminator isRaw answers.allocated with
    | none => { opened with ok := false }
    | some data =>
      match if opened.port.isOpen && opened.port.hasFd then answers.written else none with
      | none => { opened with ok := false }
      | some n =>
        { opened with
          effects := opened.effects ++ [port.effect (.wrote (data.take n))]
          ok := n = data.length }

end PortInstance

/-! ## The daemon -/

/-- The parts of `at_daemon_ctx_t` that the methods use, and the clock. -/
structure Daemon where
  table : LeaseTable
  ports : List PortInstance
  nextHandle : ℕ
  now : ℕ

inductive Method where
  | open
  | sendat
  | close
  | leaseAcquire
  | leaseRenew
  | leaseRelease

/-- A message with the fields that the policies name. -/
structure Request where
  method : Method
  atPort : Option Text := none
  baudrate : Option ℤ := none
  databits : Option ℤ := none
  parity : Option ℤ := none
  stopbits : Option ℤ := none
  atCmd : Option Text := none
  rawAtContent : Option Text := none
  sendonly : Option Bool := none
  owner : Option Text := none
  token : Option Text := none
  ttl : Option ℕ := none

/-- What the system does during a call. -/
structure Answers where
  /-- There is memory for a new instance or lease. -/
  allocated : Bool
  /-- `access` finds the path that was passed to `open`. -/
  present : Bool
  send : SendAnswers
  /-- `time` -/
  time : ℤ

/-- The answers of a system on which everything works. -/
def Answers.working : Answers where
  allocated := true
  present := true
  send := ⟨⟨true, true, true, true⟩, true, none⟩
  time := 0

/-- A request with its defaults. -/
inductive Call where
  | open (atPort : Text) (settings : Settings)
  | sendat (atPort : Text) (owner : Option Text) (cmd : Text) (isRaw sendonly : Bool)
  | close (atPort : Text)
  | lease (call : LeaseCall)

/-- The arguments of a method; `none` is `UBUS_STATUS_INVALID_ARGUMENT`. -/
def Request.call? (r : Request) (allocated : Bool) : Option Call := do
  let atPort ← r.atPort
  match r.method with
  | .open =>
    return .open atPort
      { baudrate := r.baudrate.getD 115200
        databits := r.databits.getD 8
        parity := r.parity.getD 0
        stopbits := r.stopbits.getD 1 }
  | .sendat =>
    match r.atCmd, r.rawAtContent with
    | some cmd, _ => return .sendat atPort r.owner cmd false (r.sendonly.getD false)
    | none, some content => return .sendat atPort r.owner content true (r.sendonly.getD false)
    | none, none => none
  | .close => return .close atPort
  | .leaseAcquire => return .lease (.acquire atPort (← r.owner) (r.ttl.getD 60) allocated)
  | .leaseRenew => return .lease (.renew atPort (← r.owner) (← r.token) (r.ttl.getD 60))
  | .leaseRelease => return .lease (.release atPort (← r.owner) (← r.token))

inductive Reply where
  | invalidArgument
  | noData
  | error (message : String)
  | opened (settings : Settings)
  | closed
  | settingsPending
  | sent (ok : Bool)
  | lease (reply : LeaseReply)

/-- A line of an instance, as it goes into the queue of line events. -/
structure PortLine where
  handle : ℕ
  arrival : Arrival

/-- What a step leaves behind. -/
structure Outcome where
  daemon : Daemon
  effects : List PortEffect := []
  lines : List PortLine := []
  reply : Option Reply := none

/-- The calls, and what the reader threads and the monitor do between them. -/
inductive Event where
  | request (elapsed : ℕ) (r : Request) (answers : Answers)
  | line (handle : ℕ) (line : Text) (monotonicMs commandId : ℕ) (correlation : Correlation)
  | readError (handle : ℕ)
  | check (handle : ℕ) (time : ℤ) (present : Bool) (device : Device)

namespace Daemon

def initial (daemonEpoch : ℕ) : Daemon := ⟨{ daemonEpoch }, [], 0, 0⟩

/-- `find_port_instance` -/
def findPortInstance (d : Daemon) (atPort : Text) : Option PortInstance :=
  d.ports.find? (·.path.val = atPort)

def newPort (d : Daemon) (atPort : Text) (time : ℤ) : PortInstance where
  handle := d.nextHandle
  path := .ofText atPort
  configured := ⟨0, 0, 0, 0⟩
  hasFd := false
  isOpen := false
  readerThreadValid := false
  readerRuns := false
  restartEpoch := d.table.daemonEpoch
  lineSequence := 0
  lastCheckTime := time
  checkInterval := 30

/-- `create_port_instance` -/
def createPortInstance (d : Daemon) (atPort : Text) (time : ℤ) : Daemon :=
  { d with ports := d.newPort atPort time :: d.ports, nextHandle := d.nextHandle + 1 }

/-- The instance at its address. -/
def put (d : Daemon) (port : PortInstance) : Daemon :=
  { d with ports := d.ports.map fun x => if x.handle = port.handle then port else x }

def remove (d : Daemon) (port : PortInstance) : Daemon :=
  { d with ports := d.ports.filter (·.handle ≠ port.handle) }

/-- `destroy_port_instance` -/
def destroyPortInstance (d : Daemon) (port : PortInstance) : Outcome where
  daemon := d.remove port
  effects := port.closeAtPort.effects ++ [port.effect .destroyed]

/-- `ubus_open_method` -/
def openMethod (d : Daemon) (atPort : Text) (settings : Settings) (answers : Answers) : Outcome :=
  match d.findPortInstance atPort with
  | some port =>
    let opened := port.openAtPort settings answers.send.device
    { daemon := d.put opened.port
      effects := opened.effects
      reply := some (if opened.ok then .opened settings else .error "Failed to open port") }
  | none =>
    if !answers.present then { daemon := d, reply := some (.error "Port file does not exist") }
    else if !answers.allocated then { daemon := d, reply := some .noData }
    else
      let port := d.newPort atPort answers.time
      let d := d.createPortInstance atPort answers.time
      let opened := port.openAtPort settings answers.send.device
      if opened.ok then
        { daemon := d.put opened.port, effects := opened.effects, reply := some (.opened settings) }
      else
        let destroyed := d.destroyPortInstance opened.port
        { daemon := destroyed.daemon
          effects := opened.effects ++ destroyed.effects
          reply := some (.error "Failed to open port") }

/-- `ubus_sendat_method` once it has an instance -/
def sendTo (d : Daemon) (port : PortInstance) (atPort : Text) (owner : Option Text) (cmd : Text)
    (isRaw sendonly : Bool) (answers : Answers) : Outcome :=
  let (table, verdict) := d.table.authorize d.now atPort owner
  let d := { d with table }
  if verdict ≠ .granted then { daemon := d, reply := some .settingsPending }
  else
    let sent := port.sendCommand cmd (if sendonly then [] else ascii "\r\n") isRaw answers.send
    { daemon := d.put sent.port, effects := sent.effects, reply := some (.sent sent.ok) }

/-- `ubus_sendat_method` -/
def sendatMethod (d : Daemon) (atPort : Text) (owner : Option Text) (cmd : Text)
    (isRaw sendonly : Bool) (answers : Answers) : Outcome :=
  match d.findPortInstance atPort with
  | some port => d.sendTo port atPort owner cmd isRaw sendonly answers
  | none =>
    if !answers.allocated then { daemon := d, reply := some .noData }
    else
      (d.createPortInstance atPort answers.time).sendTo (d.newPort atPort answers.time) atPort owner
        cmd isRaw sendonly answers

/-- `ubus_close_method` -/
def closeMethod (d : Daemon) (atPort : Text) : Outcome :=
  match d.findPortInstance atPort with
  | some port =>
    let closed := port.closeAtPort
    let destroyed := (d.put closed.port).destroyPortInstance closed.port
    { daemon := destroyed.daemon
      effects := closed.effects ++ destroyed.effects
      reply := some .closed }
  | none => { daemon := d, reply := some (.error "Port not found") }

/-- `ubus_lease_acquire_method`, `ubus_lease_renew_method` and `ubus_lease_release_method` -/
def leaseMethod (d : Daemon) (c : LeaseCall) : Outcome :=
  let (table, reply) := d.table.call d.now c
  { daemon := { d with table }, reply := some (.lease reply) }

def call (d : Daemon) (answers : Answers) : Call → Outcome
  | .open atPort settings => d.openMethod atPort settings answers
  | .sendat atPort owner cmd isRaw sendonly =>
    d.sendatMethod atPort owner cmd isRaw sendonly answers
  | .close atPort => d.closeMethod atPort
  | .lease c => d.leaseMethod c

/-- The instance at an address. -/
def portAt (d : Daemon) (handle : ℕ) : Option PortInstance := d.ports.find? (·.handle = handle)

/-- A call takes place at its time. -/
def later (d : Daemon) (elapsed : ℕ) : Daemon := { d with now := d.now + elapsed }

def outcome (d : Daemon) : Event → Outcome
  | .request elapsed r answers =>
    match r.call? answers.allocated with
    | some c => (d.later elapsed).call answers c
    | none => { daemon := d.later elapsed, reply := some .invalidArgument }
  | .line handle line monotonicMs commandId correlation =>
    match d.portAt handle with
    | some port =>
      if !port.readerRuns then { daemon := d }
      else
        let port := port.nextLineEventState
        { daemon := d.put port
          lines := [⟨handle,
            { port := port.path.val
              epoch := port.restartEpoch
              sequence := port.lineSequence
              monotonicMs, line, commandId, correlation }⟩] }
    | none => { daemon := d }
  | .readError handle =>
    match d.portAt handle with
    | some port => { daemon := d.put port.readFails }
    | none => { daemon := d }
  | .check handle time present device =>
    match d.portAt handle with
    | some port =>
      let checked := port.checkAndReconnectPort time present device
      { daemon := d.put checked.port, effects := checked.effects }
    | none => { daemon := d }

def step (d : Daemon) (e : Event) : Daemon := (d.outcome e).daemon

end Daemon

/-! ## What a function does to an instance -/

def PortEffect.isOpening (e : PortEffect) : Bool :=
  match e.action with
  | .configured _ => true
  | _ => false

/-- How often the device is opened. -/
def openings (effects : List PortEffect) : ℕ := effects.countP (·.isOpening)

theorem openings_append (effects effects' : List PortEffect) :
    openings (effects ++ effects') = openings effects + openings effects' :=
  countP_append

/-- An instance keeps its identity and its line number, and each opening takes an epoch. -/
structure Advances (port port' : PortInstance) (effects : List PortEffect) : Prop where
  handle : port'.handle = port.handle
  path : port'.path = port.path
  sequence : port'.lineSequence = port.lineSequence
  epoch : port'.restartEpoch = port.restartEpoch + openings effects
  own : ∀ e ∈ effects, e.handle = port.handle ∧ e.path = port.path

namespace Advances

variable {port port' port'' : PortInstance} {effects effects' : List PortEffect}

theorem refl (port : PortInstance) : Advances port port [] := ⟨rfl, rfl, rfl, rfl, nofun⟩

/-- One change of a port after another one. -/
theorem trans (h : Advances port port' effects) (h' : Advances port' port'' effects') :
    Advances port port'' (effects ++ effects') where
  handle := h'.handle.trans h.handle
  path := h'.path.trans h.path
  sequence := h'.sequence.trans h.sequence
  epoch := by rw [h'.epoch, h.epoch, openings_append, Nat.add_assoc]
  own := by
    refine forall_mem_append.mpr ⟨h.own, ?_⟩
    rw [← h.handle, ← h.path]
    exact h'.own

/-- An effect that is no opening. -/
theorem record (h : Advances port port' effects) (action : PortAction)
    (haction : (port.effect action).isOpening = false) :
    Advances port port' (effects ++ [port.effect action]) where
  handle := h.handle
  path := h.path
  sequence := h.sequence
  epoch := by rw [h.epoch, openings_append, openings, openings, countP_singleton, haction]; rfl
  own := forall_mem_append.mpr ⟨h.own, forall_mem_singleton.mpr ⟨rfl, rfl⟩⟩

end Advances

namespace PortInstance

variable (port : PortInstance)

theorem advances_stopReader : Advances port port.stopReader [] := by
  unfold stopReader
  split
  · exact ⟨rfl, rfl, rfl, rfl, nofun⟩
  · exact .refl port

theorem advances_closeAtPort : Advances port port.closeAtPort.port port.closeAtPort.effects := by
  have hclosed : Advances port port.closeAtPort.port [] :=
    port.advances_stopReader.trans ⟨rfl, rfl, rfl, rfl, nofun⟩
  unfold closeAtPort
  split
  · exact hclosed.record .closed rfl
  · exact hclosed

/-- Opening counts the epoch up once for every descriptor that was configured. -/
theorem advances_openAtPort (settings : Settings) (device : Device) :
    Advances port (port.openAtPort settings device).port
      (port.openAtPort settings device).effects := by
  have hclosed := port.advances_closeAtPort
  -- once the device is open, the old descriptor is closed and the new one is configured
  have hopened : ∀ opened : PortInstance, opened.handle = port.closeAtPort.port.handle →
      opened.path = port.closeAtPort.port.path →
      opened.lineSequence = port.closeAtPort.port.lineSequence →
      opened.restartEpoch = port.closeAtPort.port.restartEpoch + 1 →
      Advances port opened (port.closeAtPort.effects ++ [port.effect (.configured settings)]) := by
    intro opened hhandle hpath hsequence hepoch
    refine hclosed.trans ⟨hhandle, hpath, hsequence, hepoch, fun e he => ?_⟩
    rw [mem_singleton.mp he, hclosed.handle, hclosed.path]
    exact ⟨rfl, rfl⟩
  unfold openAtPort
  split
  · exact .refl port
  split
  · exact hclosed
  split
  · exact hopened _ rfl rfl rfl rfl
  · -- the thread could not be started, so the descriptor is closed again
    refine (hopened _ ?_ ?_ ?_ ?_).record .closed rfl
    all_goals rfl

/-- The effects of `destroy_port_instance`. -/
theorem advances_destroy :
    Advances port port (port.closeAtPort.effects ++ [port.effect .destroyed]) := by
  have hclosed : Advances port port port.closeAtPort.effects := by
    unfold closeAtPort
    split
    · exact (Advances.refl port).record .closed rfl
    · exact .refl port
  exact hclosed.record .destroyed rfl

/-- The periodic check only closes and opens. -/
theorem advances_checkAndReconnectPort (time : ℤ) (present : Bool) (device : Device) :
    Advances port (port.checkAndReconnectPort time present device).port
      (port.checkAndReconnectPort time present device).effects := by
  have hchecked : Advances port { port with lastCheckTime := time } [] := ⟨rfl, rfl, rfl, rfl, nofun⟩
  unfold checkAndReconnectPort
  split
  · exact .refl port
  dsimp only
  split
  · split
    · exact hchecked.trans (advances_openAtPort _ _ _)
    · exact hchecked
  split
  · exact hchecked.trans (advances_closeAtPort _)
  split
  · exact hchecked.trans ((advances_closeAtPort _).trans (advances_openAtPort _ _ _))
  · exact hchecked

theorem advances_readFails : Advances port port.readFails [] := by
  unfold readFails
  split
  · exact ⟨rfl, rfl, rfl, rfl, nofun⟩
  · exact ⟨rfl, rfl, rfl, rfl, nofun⟩

/-- A command opens the port if it has to, and writes at most once. -/
theorem advances_sendCommand (cmd terminator : Text) (isRaw : Bool) (answers : SendAnswers) :
    Advances port (port.sendCommand cmd terminator isRaw answers).port
      (port.sendCommand cmd terminator isRaw answers).effects := by
  unfold sendCommand
  dsimp only
  -- whether the port was open does not matter from here on
  generalize hopened : (if port.isOpen then (⟨port, [], true⟩ : PortOutcome)
    else port.openAtPort .default answers.device) = opened
  have hadvances : Advances port opened.port opened.effects := by
    rw [← hopened]
    split
    · exact .refl port
    · exact port.advances_openAtPort _ _
  split
  · exact hadvances
  split
  · exact hadvances
  split
  · exact hadvances
  · exact hadvances.record (.wrote _) rfl

end PortInstance

/-! ## What a step does -/

/-- At most one call on the lease table. -/
inductive LeaseTable.Follows (t : LeaseTable) : LeaseTable → Prop where
  | same : Follows t t
  | call (now : ℕ) (c : LeaseCall) : Follows t (t.call now c).1

/-- Before a step touches an instance, time passes, leases may change, and the instance may be
created. -/
inductive Prepared (d : Daemon) : Daemon → Prop where
  | same (table : LeaseTable) (now : ℕ) (htable : d.table.Follows table) :
      Prepared d { d with table, now }
  | created (table : LeaseTable) (now : ℕ) (htable : d.table.Follows table) (atPort : Text)
      (time : ℤ) : Prepared d { d.createPortInstance atPort time with table, now }

/-- A step touches at most one instance. -/
inductive Acts (d : Daemon) : Daemon → List PortEffect → List PortLine → Prop where
  | idle : Acts d d [] []
  | changed {port port' : PortInstance} {effects : List PortEffect} (hmem : port ∈ d.ports)
      (hadvances : Advances port port' effects) : Acts d (d.put port') effects []
  | removed {port port' : PortInstance} {effects : List PortEffect} (hmem : port ∈ d.ports)
      (hadvances : Advances port port' effects) : Acts d (d.remove port') effects []
  | received {port : PortInstance} {arrival : Arrival} (hmem : port ∈ d.ports)
      (hport : arrival.port = port.path.val) (hepoch : arrival.epoch = port.restartEpoch)
      (hsequence : arrival.sequence = port.lineSequence + 1) :
      Acts d (d.put port.nextLineEventState) [] [⟨port.handle, arrival⟩]

theorem LeaseTable.Follows.daemonEpoch {t t' : LeaseTable} (h : t.Follows t') :
    t'.daemonEpoch = t.daemonEpoch := by
  cases h with
  | same => rfl
  | call now c =>
    have heffect := t.effect_call now c
    generalize t.call now c = r at heffect ⊢
    cases heffect <;> rfl

theorem LeaseTable.Follows.wellFormed {t t' : LeaseTable} (h : t.Follows t') (hwf : t.WellFormed) :
    t'.WellFormed := by
  cases h with
  | same => exact hwf
  | call now c => exact hwf.call now c

namespace Daemon

variable (d : Daemon)

theorem mem_put {p x : PortInstance} (hx : x ∈ (d.put p).ports) :
    x = p ∨ x ∈ d.ports ∧ x.handle ≠ p.handle := by
  obtain ⟨y, hy, rfl⟩ := mem_map.mp hx
  split
  · exact .inl rfl
  · next hother => exact .inr ⟨hy, hother⟩

theorem mem_remove {port x : PortInstance} (hx : x ∈ (d.remove port).ports) :
    x ∈ d.ports ∧ x.handle ≠ port.handle := by
  simpa [remove] using hx

theorem remove_put (port : PortInstance) : (d.put port).remove port = d.remove port := by
  unfold put remove
  congr 1
  simp only [ne_eq, decide_not]
  induction d.ports with
  | nil => rfl
  | cons x rest ih => by_cases hx : x.handle = port.handle <;> simp [hx, ih]

/-- What a command does, once its port is there; the leases that have run out are dropped first. -/
theorem acts_sendTo {port : PortInstance} (hmem : port ∈ d.ports) (atPort : Text)
    (owner : Option Text) (cmd : Text) (isRaw sendonly : Bool) (answers : Answers) :
    ∃ table, d.table.Follows table ∧
      Acts { d with table } (d.sendTo port atPort owner cmd isRaw sendonly answers).daemon
        (d.sendTo port atPort owner cmd isRaw sendonly answers).effects
        (d.sendTo port atPort owner cmd isRaw sendonly answers).lines := by
  refine ⟨_, .call d.now (.authorize atPort owner), ?_⟩
  unfold sendTo
  dsimp only
  split
  · exact .idle
  · exact .changed hmem (port.advances_sendCommand _ _ _ _)

/-- **Calls**: a call works on one port, after a new one was created for it at most. -/
theorem acts_call (answers : Answers) (c : Call) :
    ∃ d₁, Prepared d d₁ ∧ Acts d₁ (d.call answers c).daemon (d.call answers c).effects
      (d.call answers c).lines := by
  have hsame : Prepared d d := .same d.table d.now .same
  cases c with
  | «open» atPort settings =>
    show ∃ d₁, Prepared d d₁ ∧ Acts d₁ (d.openMethod atPort settings answers).daemon
      (d.openMethod atPort settings answers).effects (d.openMethod atPort settings answers).lines
    unfold openMethod
    split
    · next port hfound =>
      -- the port exists and is opened with new settings
      exact ⟨d, hsame, .changed (mem_of_find?_eq_some hfound) (port.advances_openAtPort _ _)⟩
    split
    · exact ⟨d, hsame, .idle⟩
    split
    · exact ⟨d, hsame, .idle⟩
    · -- a new port, which is destroyed again if it cannot be opened
      refine ⟨_, .created d.table d.now .same atPort answers.time, ?_⟩
      have hadvances := (d.newPort atPort answers.time).advances_openAtPort settings
        answers.send.device
      dsimp only
      split
      · exact .changed mem_cons_self hadvances
      · exact .removed mem_cons_self (hadvances.trans (PortInstance.advances_destroy _))
  | sendat atPort owner cmd isRaw sendonly =>
    show ∃ d₁, Prepared d d₁ ∧ Acts d₁ (d.sendatMethod atPort owner cmd isRaw sendonly answers).daemon
      (d.sendatMethod atPort owner cmd isRaw sendonly answers).effects
      (d.sendatMethod atPort owner cmd isRaw sendonly answers).lines
    unfold sendatMethod
    split
    · next port hfound =>
      obtain ⟨table, htable, hacts⟩ := d.acts_sendTo (mem_of_find?_eq_some hfound) atPort owner
        cmd isRaw sendonly answers
      exact ⟨_, .same table d.now htable, hacts⟩
    split
    · exact ⟨d, hsame, .idle⟩
    · -- the port is created for the command
      obtain ⟨table, htable, hacts⟩ := (d.createPortInstance atPort answers.time).acts_sendTo
        mem_cons_self atPort owner cmd isRaw sendonly answers
      exact ⟨_, Prepared.created (d := d) table d.now htable atPort answers.time, hacts⟩
  | close atPort =>
    show ∃ d₁, Prepared d d₁ ∧ Acts d₁ (d.closeMethod atPort).daemon (d.closeMethod atPort).effects
      (d.closeMethod atPort).lines
    unfold closeMethod
    split
    · next port hfound =>
      refine ⟨d, hsame, ?_⟩
      -- `close` updates the port before it takes it away
      show Acts d ((d.put _).remove _) _ _
      rw [remove_put]
      exact .removed (mem_of_find?_eq_some hfound)
        (port.advances_closeAtPort.trans (PortInstance.advances_destroy _))
    · exact ⟨d, hsame, .idle⟩
  | lease c => exact ⟨_, .same _ d.now (.call d.now c), .idle⟩

theorem lines_sendTo (port : PortInstance) (atPort : Text) (owner : Option Text) (cmd : Text)
    (isRaw sendonly : Bool) (answers : Answers) :
    (d.sendTo port atPort owner cmd isRaw sendonly answers).lines = [] := by
  unfold sendTo
  dsimp only
  split
  · rfl
  · rfl

/-- No line is received in a call. -/
theorem lines_call (answers : Answers) (c : Call) : (d.call answers c).lines = [] := by
  -- lines are published by the reading thread alone
  cases c with
  | «open» atPort settings =>
    simp only [call, openMethod]
    split
    · rfl
    split
    · rfl
    split
    · rfl
    split
    · rfl
    · rfl
  | sendat atPort owner cmd isRaw sendonly =>
    simp only [call, sendatMethod]
    split
    · exact d.lines_sendTo _ _ _ _ _ _ _
    split
    · rfl
    · exact lines_sendTo _ _ _ _ _ _ _ _
  | close atPort =>
    simp only [call, closeMethod]
    split
    · rfl
    · rfl
  | lease c => rfl

theorem table_of_acts {d d' : Daemon} {effects : List PortEffect} {lines : List PortLine}
    (hacts : Acts d d' effects lines) : d'.table = d.table := by
  cases hacts <;> rfl

/-- The cases of a step. -/
theorem acts_outcome (e : Event) :
    ∃ d₁, Prepared d d₁ ∧ Acts d₁ (d.outcome e).daemon (d.outcome e).effects (d.outcome e).lines := by
  have hsame : Prepared d d := .same d.table d.now .same
  have hmem : ∀ {handle port}, d.portAt handle = some port → port ∈ d.ports :=
    fun hfound => mem_of_find?_eq_some hfound
  unfold outcome
  cases e with
  | request elapsed r answers =>
    dsimp only
    split
    · next c _ =>
      -- the time that has gone by is part of the preparation
      obtain ⟨d₁, hprepared, hacts⟩ := (d.later elapsed).acts_call answers c
      refine ⟨d₁, ?_, hacts⟩
      cases hprepared with
      | same table now htable => exact .same table now htable
      | created table now htable atPort time =>
        exact Prepared.created (d := d) table now htable atPort time
    · exact ⟨_, .same d.table (d.now + elapsed) .same, .idle⟩
  | line handle line monotonicMs commandId correlation =>
    dsimp only
    split
    · next port hfound =>
      have hhandle : port.handle = handle := by simpa using find?_some hfound
      subst hhandle
      split
      · exact ⟨d, hsame, .idle⟩
      · exact ⟨d, hsame, .received (hmem hfound) rfl rfl rfl⟩
    · exact ⟨d, hsame, .idle⟩
  | readError handle =>
    dsimp only
    split
    · next port hfound => exact ⟨d, hsame, .changed (hmem hfound) port.advances_readFails⟩
    · exact ⟨d, hsame, .idle⟩
  | check handle time present device =>
    dsimp only
    split
    · next port hfound =>
      exact ⟨d, hsame, .changed (hmem hfound) (port.advances_checkAndReconnectPort _ _ _)⟩
    · exact ⟨d, hsame, .idle⟩

theorem wellFormed_step {d : Daemon} (hwf : d.table.WellFormed) (e : Event) :
    (d.step e).table.WellFormed := by
  obtain ⟨d₁, hprepared, hacts⟩ := d.acts_outcome e
  rw [step, table_of_acts hacts]
  cases hprepared with
  | same table now htable => exact htable.wellFormed hwf
  | created table now htable atPort time => exact htable.wellFormed hwf

end Daemon

end QModem.At
