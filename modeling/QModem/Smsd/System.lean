import QModem.Lib.Run
import QModem.Smsd.Maintain
import QModem.Smsd.Forward

/-!
# The Daemon as a State Machine

Every operation on the database is a step.  A failed operation is rolled back and changes nothing.
-/

namespace QModem.Smsd

open Lib

structure State where
  db : Database
  windows : Windows

/-- The operations, with everything they are called with. -/
inductive Op where
  | importSegment (segment : SmsSegment) (now : ℤ) (forwarding : Bool)
  | publishExpired (modemId : ModemId) (now : ℤ) (forwarding : Bool) (scan : ScanOrder)
  | finishScan (modemId : ModemId) (storage : Text) (startedAt : ℤ)
  | prune (modemId : ModemId) (receivedLimit sentLimit : ℤ) (clock : PruneClock)
  | markSourceDeleted (sourceId : ℕ) (deletedAt : ℤ)
  | deleteMessage (modemId : ModemId) (messageId : ℕ)
  | deleteModemMessages (modemId : ModemId)
  | recordSync (syncRun : SyncRun) (syncedAt : ℤ)
  | recordEvent (modemId : ModemId) (epoch sequence : ℤ)
  | setMultipartWindows (waitSeconds lateSeconds : ℤ)
  | addLooseMessage (message : LooseMessage) (now : ℤ)
  | markRead (modemId : ModemId) (messageId : ℕ) (now : ℤ)
  /-- A claim by some worker. -/
  | claim (worker : ℕ) (clock : ClaimClock)
  /-- A report by some worker. -/
  | complete (worker deliveryId : ℕ) (success : Bool) (error : Option Text) (now : ℤ)

namespace State

variable {α : Type}

/-- The state after a transaction: the old one when it failed. -/
def commit (s : State) (tx : Tx α) : State :=
  match tx s.db with
  | some (_, db) => { s with db }
  | none => s

def step (s : State) : Op → State
  | .importSegment segment now forwarding =>
    s.commit (Smsd.importSegment s.windows segment now forwarding)
  | .publishExpired modemId now forwarding scan =>
    s.commit (Smsd.publishExpired s.windows modemId now forwarding scan)
  | .finishScan modemId storage startedAt => s.commit (Smsd.finishScan modemId storage startedAt)
  | .prune modemId receivedLimit sentLimit clock =>
    s.commit (Smsd.prune s.windows modemId receivedLimit sentLimit clock)
  | .markSourceDeleted sourceId deletedAt => s.commit (Smsd.markSourceDeleted sourceId deletedAt)
  | .deleteMessage modemId messageId => s.commit (Smsd.deleteMessage modemId messageId)
  | .deleteModemMessages modemId => s.commit (Smsd.deleteModemMessages modemId)
  | .recordSync syncRun syncedAt => s.commit (Smsd.recordSync syncRun syncedAt)
  | .recordEvent modemId epoch sequence => s.commit (Smsd.recordEvent modemId epoch sequence)
  | .setMultipartWindows waitSeconds lateSeconds =>
    { s with windows := Smsd.setMultipartWindows s.windows waitSeconds lateSeconds }
  | .addLooseMessage message now => s.commit (Smsd.addLooseMessage message now)
  | .markRead modemId messageId now => s.commit (Smsd.markRead modemId messageId now)
  | .claim _ clock => s.commit (claimDelivery clock)
  | .complete _ deliveryId success error now =>
    s.commit (completeDelivery deliveryId success error now)

def initial : State where
  db := .empty
  windows := {}

/-- A state the daemon can get into. -/
def Reachable (s : State) : Prop := ∃ ops, s = run step initial ops

end State

end QModem.Smsd
