import TransferLedger.Log.Reader

/-!
# Rebuilding a transfer

The state of a transfer is what its facts leave behind, so it is rebuilt by reading the stream and
taking one fact after the other.  A snapshot saves reading the facts that it stands for.  Whatever
is wrong with a snapshot, the rebuild goes on without it; whatever is wrong with a stored fact, it
does not.
-/

set_option autoImplicit false

namespace TransferLedger

/-- Why a transfer cannot be rebuilt. -/
inductive ReplayError where
  /-- There is no fact, and no snapshot. -/
  | notFound (stream : String)
  | store (e : StoreError)
  /-- A stored fact does not fit the facts before it. -/
  | corrupt (stream : String) (sequence : Nat) (reason : String)
  deriving DecidableEq, Repr

namespace ReplayError

def message : ReplayError → String
  | notFound stream => "Aggregate not found: " ++ stream
  | store e => "Event store error: " ++ e.message
  | corrupt stream sequence reason =>
    "Corrupt stream " ++ stream ++ " at sequence " ++ toString sequence ++ ": " ++ reason

def isNotFound : ReplayError → Bool
  | notFound _ => true
  | _ => false

def isFatal : ReplayError → Bool
  | notFound _ => false
  | store e => e.isIntegrity
  | corrupt .. => true

end ReplayError

/-- A rebuilt transfer, and how it was rebuilt. -/
structure Rebuilt where
  copy : WorkingCopy
  /-- The version of the snapshot that was used. -/
  snapshotVersion : Option Nat
  /-- The number of facts taken behind the snapshot. -/
  applied : Nat
  deriving DecidableEq

/-- What snapshots of transfers are snapshots of. -/
def Transfer.snapshotType : String :=
  "Transaction"

def WorkingCopy.snapshot (c : WorkingCopy) (now : Instant) : Snapshot :=
  .capture now c.stream Transfer.snapshotType c.version c.transfer.toJson

/-- The working copy that a snapshot holds for a stream. -/
def Snapshot.restore (stream : String) (s : Snapshot) : Except SnapshotError WorkingCopy :=
  let wanted := Transfer.snapshotType ++ " " ++ stream
  if s.stream ≠ stream ∨ s.type ≠ Transfer.snapshotType then
    .error (.mismatched wanted (s.type ++ " " ++ s.stream))
  else
    match Transfer.ofJson? s.state with
    | none => .error (.unreadable "undecodable state")
    | some t =>
      if t.id ≠ stream then .error (.mismatched wanted (Transfer.snapshotType ++ " " ++ t.id))
      else .ok (.replayed t s.version)

/-- The fact that a record holds, which has to be of the kind stored beside it. -/
def Record.event (r : Record) : Except ReplayError Event :=
  match Event.ofText? r.payload with
  | none => .error (.corrupt r.stream r.sequence "undecodable payload")
  | some e =>
    if e.kind = r.kind then .ok e
    else
      .error (.corrupt r.stream r.sequence
        ("payload is " ++ e.kind ++ " but stored type is " ++ r.kind))

namespace Rebuilt

def blank (stream : String) : Rebuilt :=
  ⟨.blank stream, none, 0⟩

/-- Before the first fact behind a starting point. -/
def startingFrom (stream : String) : Option WorkingCopy → Rebuilt
  | some c => ⟨c, some c.version, 0⟩
  | none => .blank stream

/-- Take the fact of a record. -/
def take (stream : String) (b : Rebuilt) (r : Record) : Except ReplayError Rebuilt :=
  match r.event with
  | .error e => .error e
  | .ok e =>
    match b.copy.apply e with
    | .error x => .error (.corrupt stream r.sequence x.message)
    | .ok c => .ok { b with copy := c.markReplayed r.sequence, applied := b.applied + 1 }

/-- Take the facts of records one after the other, up to the first that is refused. -/
def takeAll (stream : String) (b : Rebuilt) : List Record → Except ReplayError Rebuilt
  | [] => .ok b
  | r :: rest =>
    match b.take stream r with
    | .ok b => b.takeAll stream rest
    | .error e => .error e

end Rebuilt

namespace Log

/-- What the latest snapshot of a stream gives to start from, if it can be used.  Without
`snapshots` there is no store to ask. -/
def startingPoint (log : Log) (snapshots : Bool) (stream : String) :
    Dialogue (Option WorkingCopy) :=
  if log.config.useSnapshots && snapshots then do
    match ← Dialogue.load stream with
    | .ok (some s) => return (s.restore stream).toOption
    | .ok none => return none
    | .error _ => return none
  else return none

/-- Take all facts of a stream behind a starting point. -/
def replayFrom (log : Log) (stream : String) (start : Option WorkingCopy) :
    Dialogue (Except ReplayError Rebuilt) := do
  let b := Rebuilt.startingFrom stream start
  match ← (log.streamReader stream (b.copy.version + 1)).run (Rebuilt.take stream) b with
  | (_, .failed e) => return .error (.store e)
  | (_, .refused e) => return .error e
  | (b, .ended) =>
    if b.snapshotVersion = none ∧ b.applied = 0 then return .error (.notFound stream)
    else return .ok b

/-- Rebuild the transfer of a stream. -/
def rebuild (log : Log) (snapshots : Bool) (stream : String) :
    Dialogue (Except ReplayError Rebuilt) := do
  log.replayFrom stream (← log.startingPoint snapshots stream)

end Log

end TransferLedger
