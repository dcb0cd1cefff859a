import TransferLedger.Coordinator
import TransferLedger.Transfer.Acknowledgment

/-!
# Handling commands

A command is handled in attempts.  Each rebuilds the transfer, performs the operation on it and
commits the one fact that comes of it.  If somebody else has written to the stream in the meantime
the attempt is lost, and the next one starts over from a fresh rebuild; any other failure ends the
command.  A command that opens a transfer may find nothing to rebuild.
-/

set_option autoImplicit false

namespace TransferLedger

/-- Why a command has failed. -/
inductive CommandError where
  | operation (e : OperationError)
  /-- The transfer could not be rebuilt. -/
  | replay (e : ReplayError)
  | commit (e : CommitError)
  /-- Every attempt was lost. -/
  | exhausted (transfer : String) (attempts : Nat)
  deriving DecidableEq, Repr

def CommandError.message : CommandError → String
  | operation e => e.message
  | replay e => e.message
  | commit e => e.message
  | exhausted transfer attempts =>
    "Gave up on transaction " ++ transfer ++ " after " ++ toString attempts ++
      " conflicting attempts"

structure CommandHandler where
  log : Log
  /-- There is a store for snapshots. -/
  snapshots : Bool
  attempts : Nat

namespace CommandHandler

/-- A handler that makes as many attempts as are configured. -/
def configured (log : Log) (snapshots : Bool) : CommandHandler :=
  ⟨log, snapshots, max log.config.attempts 1⟩

/-- A handler that makes so many attempts, and at least one. -/
def withAttempts (h : CommandHandler) (attempts : Nat) : CommandHandler :=
  { h with attempts := max attempts 1 }

def describe (h : CommandHandler) : String :=
  "TransactionCommandHandler \x7b max_attempts: " ++ toString h.attempts ++ ", snapshots: " ++
    Config.flagText h.snapshots ++ " \x7d"

/-- The working copy to perform a command on. -/
def load (h : CommandHandler) (c : Command) : Dialogue (Except CommandError WorkingCopy) := do
  match ← h.log.rebuild h.snapshots c.transfer with
  | .ok b => return .ok b.copy
  | .error e =>
    if e.isNotFound && c.kind.createsStream then return .ok (.blank c.transfer)
    else return .error (.replay e)

/-- Commit one working copy that nobody else knows of.  The version that it has afterwards. -/
def commitOne (h : CommandHandler) (copy : WorkingCopy) : Dialogue (Except CommitError Nat) := do
  let coordinator := (Coordinator.idle h.log h.snapshots).track 0
  match ← coordinator.push.holding copy with
  | ((.ok _, _), copy) => return .ok copy.version
  | ((.error e, _), _) => return .error e

/-- What has come of an attempt. -/
inductive Attempt where
  | done (version : Nat)
  /-- Somebody else has written in the meantime. -/
  | lost
  /-- The command has failed. -/
  | failed (e : CommandError)

/-- One attempt at a command. -/
def attempt (h : CommandHandler) (c : Command) : Dialogue Attempt := do
  match ← h.load c with
  | .error e => return .failed e
  | .ok copy =>
    match copy.perform (← Dialogue.time) c.operation with
    | .error e => return .failed (.operation e)
    | .ok copy =>
      match ← h.commitOne copy with
      | .ok version => return .done version
      | .error e => if e.isConflict then return .lost else return .failed (.commit e)

/-- Attempts at a command, so many at most, when so many have been lost.  The version of the stream
and the number of attempts made. -/
def attemptsFrom (h : CommandHandler) (c : Command) :
    (left lost : Nat) → Dialogue (Except CommandError (Nat × Nat))
  | 0, lost => return .error (.exhausted c.transfer lost)
  | left + 1, lost => do
    match ← h.attempt c with
    | .done version => return .ok (version, lost + 1)
    | .failed e => return .error e
    | .lost => h.attemptsFrom c left (lost + 1)

/-- Handle a command.  Its execution goes by the given identifier. -/
def handle (h : CommandHandler) (id : CommandId) (c : Command) :
    Dialogue (Except CommandError Acknowledgment) := do
  match ← h.attemptsFrom c h.attempts 0 with
  | .ok (version, attempts) => return .ok ⟨id, c.kind, c.transfer, version, attempts⟩
  | .error e => return .error e

end CommandHandler

end TransferLedger
