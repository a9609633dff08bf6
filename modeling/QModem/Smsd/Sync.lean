import QModem.Lib.CMemory
import QModem.Smsd.Invariants
import QModem.Smsd.System

/-!
# Synchronizing a Modem

`sync_modem` of `qmodem_smsd/src/main.c`: the messages of a modem are read by `tom_modem`, whose
list is imported entry by entry, each in a transaction of its own.

The list is taken as a whole.  When `tom_modem` reports an error, nothing is imported, and an entry
that cannot be imported ends the loop.  The library that reads the list is a parameter, and nothing is
taken for granted of it.

## Main results

- `reachable_syncModem`: a synchronization is a sequence of operations of the daemon
- `synchronized_consistent`: whatever `tom_modem` prints and the library makes of it, the store stays
  consistent
-/

namespace QModem.Smsd

open Lib List

/-! ## The function -/

/-- The functions of json-c that `sync_modem` calls.  An array gives its items. -/
structure JsonC where
  Object : Type
  tokenerParse : List UInt8 → Option Object
  objectGetEx : Object → Text → Option Object
  arrayItems : Object → Option (List Object)
  getInt : Object → ℤ
  getInt64 : Object → ℤ
  getString : Object → Text

/-- What `load_config` has found out about a modem. -/
structure SyncConfig where
  modemId : ModemId
  storage : Text
  forwarding : Bool
  autoDelete : Bool
  receivedRetention : ℤ
  sentRetention : ℤ

/-- What happens around the turn of an entry: the time of the import, and the time at which the
source is marked, if the modem has deleted the message. -/
structure SyncTurn where
  now : ℤ
  deletedAt : Option ℤ

/-- Everything else a synchronization depends on. -/
structure SyncEnv where
  trigger : Text
  startedAt : ℤ
  turn : ℕ → SyncTurn
  expiredAt : ℤ
  scan : ScanOrder
  clock : PruneClock
  finishedAt : ℤ
  syncedAt : ℤ

variable (json : JsonC)

/-- The segment for an entry; without one of its five fields an entry is passed over. -/
def entrySegment (cfg : SyncConfig) (entry : json.Object) : Option SmsSegment := do
  let index ← json.objectGetEx entry (ascii "index")
  let pdu ← json.objectGetEx entry (ascii "pdu")
  let sender ← json.objectGetEx entry (ascii "sender")
  let timestamp ← json.objectGetEx entry (ascii "timestamp")
  let content ← json.objectGetEx entry (ascii "content")
  return {
    modemId := cfg.modemId
    storage := cfg.storage
    sourceIndex := json.getInt index
    pdu := json.getString pdu
    sender := json.getString sender
    timestamp := json.getInt64 timestamp
    content := json.getString content
    reference := ((json.objectGetEx entry (ascii "reference")).map json.getInt).getD 0
    totalParts := ((json.objectGetEx entry (ascii "total")).map json.getInt).getD 1
    partNumber := ((json.objectGetEx entry (ascii "part")).map json.getInt).getD 1 }

def listEntries (output : List UInt8) : Option (List json.Object) := do
  let root ← json.tokenerParse output
  let messages ← (json.objectGetEx root (ascii "msg")).or (json.objectGetEx root (ascii "received"))
  json.arrayItems messages

/-- What a synchronization leaves behind. -/
structure SyncOutcome where
  state : State
  imported : List (SmsSegment × ImportResult)
  ok : Bool

/-- The state after a source was handed over: it is marked when the modem has deleted the message.
-/
def markDeleted (cfg : SyncConfig) (turn : SyncTurn) (result : ImportResult) (s : State) : State :=
  match turn.deletedAt with
  | some deletedAt =>
    if cfg.autoDelete && result.safeToDelete then
      s.step (.markSourceDeleted result.sourceId deletedAt)
    else s
  | none => s

def importEntries (cfg : SyncConfig) (turn : ℕ → SyncTurn) :
    ℕ → List json.Object → State → SyncOutcome
  | _, [], s => ⟨s, [], true⟩
  | i, entry :: entries, s =>
    match entrySegment json cfg entry with
    | none => importEntries cfg turn (i + 1) entries s
    | some segment =>
      match importSegment s.windows segment (turn i).now cfg.forwarding s.db with
      | none => ⟨s, [], false⟩
      | some (result, _) =>
        let s := s.step (.importSegment segment (turn i).now cfg.forwarding)
        let outcome := importEntries cfg turn (i + 1) entries (markDeleted cfg (turn i) result s)
        { outcome with imported := (segment, result) :: outcome.imported }

/-- Whether the operation of the daemon succeeds. -/
def State.accepts (s : State) : Op → Bool
  | .publishExpired modemId now forwarding scan =>
    (Smsd.publishExpired s.windows modemId now forwarding scan s.db).isSome
  | .finishScan modemId storage startedAt => (Smsd.finishScan modemId storage startedAt s.db).isSome
  | .prune modemId receivedLimit sentLimit clock =>
    (Smsd.prune s.windows modemId receivedLimit sentLimit clock s.db).isSome
  | .recordSync syncRun syncedAt => (Smsd.recordSync syncRun syncedAt s.db).isSome
  | _ => true

/-- Operations up to the first one that fails. -/
def runWhile : List Op → State → State × Bool
  | [], s => (s, true)
  | op :: ops, s => if s.accepts op then runWhile ops (s.step op) else (s, false)

/-- What follows the loop when it has come to its end. -/
def finishOps (cfg : SyncConfig) (env : SyncEnv) : List Op :=
  [.publishExpired cfg.modemId env.expiredAt cfg.forwarding env.scan,
    .finishScan cfg.modemId cfg.storage env.startedAt,
    .prune cfg.modemId cfg.receivedRetention cfg.sentRetention env.clock]

/-- The part of `sync_modem` in front of the label `out`, with what `tom_modem` has printed and
returned. -/
def syncImport (cfg : SyncConfig) (env : SyncEnv) (output : List UInt8) (rc : ℤ) (s : State) :
    SyncOutcome :=
  if rc ≠ 0 then ⟨s, [], false⟩
  else match listEntries json output with
    | none => ⟨s, [], false⟩
    | some entries =>
      let outcome := importEntries json cfg env.turn 0 entries s
      if outcome.ok then
        let (state, ok) := runWhile (finishOps cfg env) outcome.state
        { outcome with state, ok }
      else outcome

/-- The row that `sync_modem` records. -/
def syncRunOf (cfg : SyncConfig) (env : SyncEnv) (outcome : SyncOutcome) : SyncRun where
  modemId := cfg.modemId
  trigger := env.trigger
  startedAt := env.startedAt
  finishedAt := some env.finishedAt
  imported := (outcome.imported.filter fun x => !x.2.duplicate).length
  error := if outcome.ok then none else some (ascii "modem read or database import failed")

/-- `sync_modem`, once the configuration is there. -/
def syncModem (cfg : SyncConfig) (env : SyncEnv) (output : List UInt8) (rc : ℤ) (s : State) :
    SyncOutcome :=
  let outcome := syncImport json cfg env output rc s
  let op := Op.recordSync (syncRunOf cfg env outcome) env.syncedAt
  { outcome with
    state := outcome.state.step op
    ok := outcome.ok && outcome.state.accepts op }

/-! ## A synchronization as operations of the daemon -/

variable {s : State}

theorem State.Reachable.step (h : s.Reachable) (op : Op) : (s.step op).Reachable := by
  obtain ⟨ops, rfl⟩ := h
  exact ⟨ops ++ [op], by rw [run_append]; rfl⟩

theorem reachable_markDeleted (h : s.Reachable) (cfg : SyncConfig) (turn : SyncTurn)
    (result : ImportResult) : (markDeleted cfg turn result s).Reachable := by
  unfold markDeleted
  split
  · split
    · exact h.step _
    · exact h
  · exact h

/-- Each entry is one operation. -/
theorem reachable_importEntries (cfg : SyncConfig) (turn : ℕ → SyncTurn) (h : s.Reachable) (i : ℕ)
    (entries : List json.Object) : (importEntries json cfg turn i entries s).state.Reachable := by
  induction entries generalizing i s with
  | nil => exact h
  | cons entry entries ih =>
    rw [importEntries]
    split
    · exact ih h (i + 1)
    · split
      · exact h
      · exact ih (reachable_markDeleted (h.step _) cfg (turn i) _) (i + 1)

theorem reachable_runWhile (h : s.Reachable) (ops : List Op) : (runWhile ops s).1.Reachable := by
  induction ops generalizing s with
  | nil => exact h
  | cons op ops ih =>
    rw [runWhile]
    split
    · exact ih (h.step op)
    · exact h

/-- **A synchronization is a run**: what holds in every state of the daemon holds after it. -/
theorem reachable_syncModem (h : s.Reachable) (cfg : SyncConfig) (env : SyncEnv)
    (output : List UInt8) (rc : ℤ) : (syncModem json cfg env output rc s).state.Reachable := by
  -- the reader may have failed or the list be broken; then nothing was imported
  have himport : (syncImport json cfg env output rc s).state.Reachable := by
    unfold syncImport
    split
    · exact h
    split
    · exact h
    next entries _ =>
      have hloop := reachable_importEntries json cfg env.turn h 0 entries
      dsimp only
      split
      · exact reachable_runWhile hloop _
      · exact hloop
  exact himport.step
    (.recordSync (syncRunOf cfg env (syncImport json cfg env output rc s)) env.syncedAt)

/-- What may happen to the store. -/
inductive StoreEvent where
  | op (op : Op)
  | sync (cfg : SyncConfig) (env : SyncEnv) (output : List UInt8) (rc : ℤ)

def State.after (s : State) : StoreEvent → State
  | .op op => s.step op
  | .sync cfg env output rc => (syncModem json cfg env output rc s).state

/-- **Whatever `tom_modem` prints** and whatever is read there, operations and synchronizations keep
the store consistent. -/
theorem synchronized_consistent (json : JsonC) (events : List StoreEvent) :
    Throughout (State.after json) (fun s => Consistent s.db.data) .initial events := by
  have hreachable : Throughout (State.after json) State.Reachable .initial events := by
    apply throughout_of_step ⟨[], rfl⟩
    intro s event _ h
    cases event with
    | op op => exact h.step op
    | sync cfg env output rc => exact reachable_syncModem json h cfg env output rc
  exact hreachable.imp fun s h => h.consistent

end QModem.Smsd
