import QModem.Lib.CMemory

/-!
# The Modem Scan Scheduler

The event queue and the worker threads of `modem_scan/src/modem_scand.c`.  Requests come from the
control socket and from scans.  A worker takes an event, checks that it is still the newest one for
its section, processes it and finishes it; an `add` that finds no modem yet is queued again.

Everything between taking and releasing `queue_lock` is one step, and steps of the threads
interleave in any way.  What a worker finds on the bus, whether a modem can be stopped and which USB
slot belongs to which PCIe slot are parts of the steps.  The generation of a section is an `unsigned
long` that is taken not to wrap around; the counters that only `status` reads are the lengths of the
lists here.
-/

namespace QModem.Scan

open Lib

abbrev Text := List UInt8

/-- A word of a request, read with `%127s` or copied from a buffer of 128 bytes. -/
structure Word where
  text : Text
  ne_nil : text ≠ []
  length_lt : text.length < 128
  deriving DecidableEq

/-! ## Events -/

/-- The type of an event with the fields it uses. -/
inductive Action where
  | add (slot : Word) (slotType : Text)
  | remove (section_ : Word)
  | disable (slot : Word)
  | scan (target : Word)
  deriving DecidableEq

/-- `section_from_slot` -/
def sectionFromSlot (slot : Text) : Text :=
  slot.map fun c => if c = 0x2e ∨ c = 0x3a ∨ c = 0x2d then 0x5f else c

namespace Action

/-- The field `section`: the resource an event works on. -/
def resource : Action → Text
  | add slot _ => sectionFromSlot slot.text
  | remove section_ => section_.text
  | disable slot => sectionFromSlot slot.text
  | scan target => ascii "scan:" ++ target.text.take 122

/-- `event_key` into a buffer of 256 bytes -/
def key (action : Action) : Text :=
  List.take 255 <| match action with
    | add slot slotType => ascii "add:" ++ slotType ++ ascii ":" ++ slot.text
    | remove section_ => ascii "remove:" ++ section_.text
    | disable slot => ascii "disable:" ++ slot.text
    | scan target => ascii "scan:" ++ target.text

/-- What is done when the event is processed; `slot_type` has room for 15 bytes. -/
def effect : Action → Action
  | add slot slotType => add slot (slotType.take 15)
  | action => action

def isAdd : Action → Bool
  | add _ _ => true
  | _ => false

end Action

structure Event where
  action : Action
  notBefore : ℤ
  attempts : ℕ
  generation : ℕ
  deriving DecidableEq

namespace Event

def resource (e : Event) : Text := e.action.resource

def key (e : Event) : Text := e.action.key

/-- An `add` that a `disable` for this slot takes out of the queue. -/
def isAddFor (slot : Word) (e : Event) : Bool :=
  match e.action with
  | .add slot' _ => slot'.text = slot.text
  | _ => false

end Event

/-! ## State -/

/-- How far a worker has come with its event. -/
inductive Phase where
  /-- out of the queue -/
  | taken
  /-- found current by `worker_thread`, under way in `process_event` -/
  | valid
  /-- `add_modem` has found a modem and is about to write the configuration -/
  | found
  /-- `add_modem` has failed -/
  | failed
  /-- nothing left but `finish_event_key` -/
  | spent
  deriving DecidableEq, Repr

structure Job where
  event : Event
  phase : Phase
  deriving DecidableEq

/-- The state that `queue_lock` guards, with `workers` threads. -/
structure State (workers : ℕ) where
  queue : List Event
  activeResources : List Text
  activeKeys : List Text
  /-- `slot_generation` of each section -/
  generation : Text → ℕ
  jobs : Fin workers → Option Job
  /-- What has been done to the configuration, the latest first. -/
  effects : List Action

structure Config where
  addRetryDelay : ℤ
  addRetryMax : ℕ

/-- The result of `enqueue_event_ex`. -/
inductive Answer where
  | queued
  | deduplicated
  | invalid
  deriving DecidableEq, Repr

/-- The result of `associated_pcie_slot`. -/
inductive Association where
  | none
  | ambiguous
  | owner (slot : Word)

/-- The first lines of `enqueue_event_ex`: a USB slot that belongs to a PCIe slot stands for it. -/
def Action.resolve (association : Association) : Action → Option Action
  | .add slot slotType =>
    match association with
    | .none => some (.add slot slotType)
    | .ambiguous => none
    | .owner slot => some (.add slot (ascii "pcie"))
  | .disable slot =>
    match association with
    | .none => some (.disable slot)
    | .ambiguous => none
    | .owner slot => some (.disable slot)
  | action => some action

namespace State

variable {workers : ℕ} (s : State workers)

def initial : State workers where
  queue := []
  activeResources := []
  activeKeys := []
  generation := fun _ => 0
  jobs := fun _ => none
  effects := []

/-- `event_current` of the thread that works on `e` -/
def isCurrent (e : Event) : Bool := e.generation = s.generation e.resource

/-! ## Queueing -/

/-- The place of an event among the others: behind all that are due no later. -/
def insertEvent (e : Event) : List Event → List Event
  | [] => [e]
  | e' :: queue =>
    if e.notBefore < e'.notBefore then e :: e' :: queue else e' :: insertEvent e queue

/-- `queue_remove_pending_add_for_slot`, when the request is a `disable` -/
def withoutPendingAdds (action : Action) : State workers :=
  match action with
  | .disable slot => { s with queue := s.queue.filter (!·.isAddFor slot) }
  | _ => s

/-- An event with this key is in the queue, or for a new request other than `add` with a worker. -/
def hasKey (action : Action) (attempts : ℕ) : Bool :=
  s.queue.any (·.key = action.key) ||
    (attempts = 0 && !action.isAdd && s.activeKeys.contains action.key)

/-- The event enters the queue, and its section has the generation of the event. -/
def push (e : Event) : State workers :=
  { s with
    generation := Function.update s.generation e.resource e.generation
    queue := insertEvent e s.queue }

/-- The part of `enqueue_event_ex` under `queue_lock`; `current` is the event of the calling thread,
and the generation of `e` is not set yet. -/
def enqueue (current : Option Event) (e : Event) : State workers × Answer :=
  let s := s.withoutPendingAdds e.action
  let generation := s.generation e.resource
  if s.hasKey e.action e.attempts then (s, .deduplicated)
  else if e.attempts ≠ 0 ∧ current.any (·.generation ≠ generation) then (s, .deduplicated)
  else (s.push { e with generation := if e.attempts = 0 then generation + 1 else generation }, .queued)

/-- `enqueue_event_ex` -/
def enqueueEventEx (current : Option Event) (action : Action) (delay : ℤ) (attempts : ℕ)
    (association : Association) (now : ℤ) : State workers × Answer :=
  match action.resolve association with
  | none => (s, .invalid)
  | some action =>
    s.enqueue current { action, notBefore := now + max delay 0, attempts, generation := 0 }

/-! ## Workers -/

/-- `sl_add` -/
def slAdd (l : List Text) (item : Text) : List Text :=
  if item = [] ∨ item ∈ l then l else l ++ [item]

/-- An event `dequeue_event` may take. -/
def mayTake (now : ℤ) (e : Event) : Bool :=
  e.notBefore ≤ now && !s.activeResources.contains e.resource

/-- `dequeue_event` -/
def dequeueEvent (worker : Fin workers) (now : ℤ) : State workers :=
  match s.queue.find? (s.mayTake now) with
  | none => s
  | some e =>
    { s with
      queue := s.queue.eraseP (s.mayTake now)
      activeResources := slAdd s.activeResources e.resource
      activeKeys := slAdd s.activeKeys e.key
      jobs := Function.update s.jobs worker (some ⟨e, .taken⟩) }

/-- The worker goes on with its event. -/
def setPhase (worker : Fin workers) (e : Event) (phase : Phase) : State workers :=
  { s with jobs := Function.update s.jobs worker (some ⟨e, phase⟩) }

/-- The worker does what its event asks for. -/
def act (worker : Fin workers) (e : Event) : State workers :=
  { s.setPhase worker e .spent with effects := e.action.effect :: s.effects }

/-- What `process_event` comes upon. -/
inductive Outcome where
  /-- `add`: ports and profile are found; `remove`: the section is unknown or its modem was stopped -/
  | ready
  /-- `add`: a fixed device, which is only initialised -/
  | fixed
  /-- `add`: something is missing yet; `remove`: the modem could not be stopped -/
  | failed
  deriving DecidableEq

/-- `process_event` up to the next time it takes `queue_lock` -/
def processEvent (worker : Fin workers) (e : Event) (outcome : Outcome) : State workers :=
  match e.action, outcome with
  | .add _ _, .ready => s.setPhase worker e .found
  | .add _ _, .fixed => s.act worker e
  | .add _ _, .failed => s.setPhase worker e .failed
  | .remove _, .failed => s.setPhase worker e .spent
  | _, _ => s.act worker e

/-- The configuration is written only for a current event. -/
def commitAdd (worker : Fin workers) (e : Event) : State workers :=
  if s.isCurrent e then s.act worker e else s.setPhase worker e .spent

/-- An `add` that failed is queued again, up to `add_retry_max` times. -/
def retryAdd (config : Config) (worker : Fin workers) (e : Event) (association : Association)
    (now : ℤ) : State workers :=
  match e.action with
  | .add slot slotType =>
    if e.attempts < config.addRetryMax then
      (s.enqueueEventEx (some e) (.add slot (slotType.take 15)) config.addRetryDelay (e.attempts + 1)
        association now).1.setPhase worker e .spent
    else s.setPhase worker e .spent
  | _ => s

/-- `finish_event_key` -/
def finishEventKey (worker : Fin workers) (e : Event) : State workers :=
  { s with
    activeResources := s.activeResources.erase e.resource
    activeKeys := s.activeKeys.erase e.key
    jobs := Function.update s.jobs worker none }

end State

/-! ## Steps -/

inductive Step (workers : ℕ) where
  | request (action : Action) (delay : ℤ) (association : Association) (now : ℤ)
  | take (worker : Fin workers) (now : ℤ)
  | check (worker : Fin workers)
  | process (worker : Fin workers) (outcome : State.Outcome)
  | commit (worker : Fin workers)
  | retry (worker : Fin workers) (association : Association) (now : ℤ)
  | finish (worker : Fin workers)

/-- One step.  A worker that is not at the point a step belongs to does nothing. -/
def State.step {workers : ℕ} (config : Config) (s : State workers) : Step workers → State workers
  | .request action delay association now =>
    (s.enqueueEventEx none action delay 0 association now).1
  | .take worker now =>
    match s.jobs worker with
    | none => s.dequeueEvent worker now
    | some _ => s
  | .check worker =>
    match s.jobs worker with
    | some ⟨e, .taken⟩ => s.setPhase worker e (if s.isCurrent e then .valid else .spent)
    | _ => s
  | .process worker outcome =>
    match s.jobs worker with
    | some ⟨e, .valid⟩ => s.processEvent worker e outcome
    | _ => s
  | .commit worker =>
    match s.jobs worker with
    | some ⟨e, .found⟩ => s.commitAdd worker e
    | _ => s
  | .retry worker association now =>
    match s.jobs worker with
    | some ⟨e, .failed⟩ => s.retryAdd config worker e association now
    | _ => s
  | .finish worker =>
    match s.jobs worker with
    | some ⟨e, .spent⟩ => s.finishEventKey worker e
    | _ => s

end QModem.Scan
