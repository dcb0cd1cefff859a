import TransferLedger.Rebuild
import TransferLedger.Snapshot.Policy

/-!
# Committing the work on several transfers

A coordinator knows which working copies somebody works on and stores what they have buffered, the
facts of all of them in one batch: either all of it lands or nothing does.  Working copies are known
by their handles, and several coordinators may know the same one.

Outside a transaction each commit is a batch of its own.  Inside one, commits only stage, and the
batch remembers how far each working copy has been staged, so that nothing is staged twice.  A batch
that has landed is confirmed to its working copies: they drop what is stored now.  Then snapshots
are written where they are due; whether that works makes no difference to the commit.
-/

set_option autoImplicit false

namespace TransferLedger

/-- Why a commit has failed. -/
inductive CommitError where
  | store (e : StoreError)
  | alreadyOpen
  | notOpen
  deriving DecidableEq, Repr

namespace CommitError

def message : CommitError → String
  | store e => "Commit failed: " ++ e.message
  | alreadyOpen => "A transaction is already open"
  | notOpen => "No transaction is open"

/-- Somebody else has written to a stream. -/
def isConflict : CommitError → Bool
  | store e => e.isConflict
  | _ => false

/-- Another attempt on fresh working copies may succeed. -/
def isRetryable : CommitError → Bool
  | store e => e.isRetryable
  | _ => false

end CommitError

/-- How far a working copy has been staged. -/
structure Movement where
  handle : HandleId
  /-- The durable version when it was staged first. -/
  durable : Nat
  /-- The version that the staged facts lead to. -/
  staged : Nat
  deriving DecidableEq

/-- A batch, and how far it takes each working copy, in the order in which they were staged
first. -/
structure OpenBatch where
  batch : Batch
  moved : List Movement
  deriving DecidableEq

namespace OpenBatch

def empty : OpenBatch :=
  ⟨.empty, []⟩

/-- The number of facts of a working copy that have been staged. -/
def stagedFor (b : OpenBatch) (h : HandleId) : Nat :=
  match b.moved.find? fun m => m.handle == h with
  | some m => m.staged - m.durable
  | none => 0

/-- Note how far a working copy has been staged. -/
def note (h : HandleId) (durable staged : Nat) : List Movement → List Movement
  | [] => [⟨h, durable, staged⟩]
  | m :: rest =>
    if m.handle = h then { m with staged := staged } :: rest else m :: note h durable staged rest

end OpenBatch

/-- Facts ready to be stored, each with the time at which it is made so. -/
def Dialogue.entries : List Event → Dialogue (List Entry)
  | [] => return []
  | e :: rest => do
    let now ← Dialogue.time
    let later ← Dialogue.entries rest
    return e.entry now :: later

namespace Log

/-- Stage what one working copy has buffered.  The number of facts. -/
def stageCopy (log : Log) (h : HandleId) (b : OpenBatch) :
    Dialogue (Except StoreError (Nat × OpenBatch)) := do
  let skip := b.stagedFor h
  match ← Dialogue.look h with
  | none => return .ok (0, b)
  | some c =>
    if c.pending.length ≤ skip then return .ok (0, b)
    let entries ← Dialogue.entries (c.pending.drop skip)
    match ← log.stage b.batch c.stream entries (c.durable + skip) with
    | .error e => return .error e
    | .ok (version, batch) =>
      return .ok (entries.length, ⟨batch, OpenBatch.note h c.durable version b.moved⟩)

/-- Stage what working copies have buffered, one after the other.  The number of facts. -/
def stageAll (log : Log) :
    List HandleId → OpenBatch → Dialogue (Except StoreError (Nat × OpenBatch))
  | [], b => return .ok (0, b)
  | h :: rest, b => do
    match ← log.stageCopy h b with
    | .error e => return .error e
    | .ok (n, b) =>
      match ← log.stageAll rest b with
      | .error e => return .error e
      | .ok (more, b) => return .ok (n + more, b)

end Log

/-- Somebody who commits the work on several transfers. -/
structure Coordinator where
  log : Log
  /-- There is a store for snapshots. -/
  snapshots : Bool
  policy : SnapshotPolicy
  /-- The working copies to commit, in the order in which they were named. -/
  tracked : List HandleId
  /-- The transaction, if one is open. -/
  transaction : Option OpenBatch

namespace Coordinator

def idle (log : Log) (snapshots : Bool) : Coordinator :=
  ⟨log, snapshots, .ofConfig log.config, [], none⟩

def inTransaction (c : Coordinator) : Bool :=
  c.transaction.isSome

def describe (c : Coordinator) : String :=
  "CommitCoordinator \x7b policy: " ++ c.policy.describe ++ ", tracked: " ++
    toString c.tracked.length ++ ", in_transaction: " ++ Config.flagText c.inTransaction ++ " \x7d"

/-- Name a working copy for the next commit.  Naming it twice makes no difference. -/
def track (c : Coordinator) (h : HandleId) : Coordinator :=
  if h ∈ c.tracked then c else { c with tracked := c.tracked ++ [h] }

def begin (c : Coordinator) : Except CommitError Coordinator :=
  if c.inTransaction then .error .alreadyOpen else .ok { c with transaction := some .empty }

/-- Discard the transaction and forget the working copies.  The number of facts discarded. -/
def rollback (c : Coordinator) : Except CommitError (Nat × Coordinator) :=
  match c.transaction with
  | none => .error .notOpen
  | some b => .ok (b.batch.size, { c with tracked := [], transaction := none })

/-- A snapshot is due for a working copy that has been moved so far. -/
def captures (c : Coordinator) (m : Movement) : Bool :=
  c.snapshots && c.policy.isDue m.durable m.staged

/-- Tell one working copy how far it has been stored, and write its snapshot if one is due and the
copy holds nothing newer. -/
def confirm (c : Coordinator) (m : Movement) : Dialogue Unit := do
  match ← Dialogue.confirm m.handle m.staged with
  | none => return ()
  | some copy =>
    if c.captures m && copy.version == m.staged then
      let _ ← Dialogue.save (copy.snapshot (← Dialogue.time))

/-- `confirm` for each movement of a tracked working copy. -/
def confirmAll (c : Coordinator) : List Movement → Dialogue Unit
  | [] => return ()
  | m :: rest => do
    if m.handle ∈ c.tracked then c.confirm m
    c.confirmAll rest

/-- Store a batch, confirm it and forget the working copies.  The number of facts stored. -/
def finish (c : Coordinator) (b : OpenBatch) :
    Dialogue (Except CommitError Nat × Coordinator) := do
  match ← c.log.commit b.batch with
  | .error e => return (.error (.store e), c)
  | .ok n =>
    c.confirmAll b.moved
    return (.ok n, { c with tracked := [] })

/-- Stage what is still buffered on top of a batch, and store it all. -/
def settle (c : Coordinator) (b : OpenBatch) : Dialogue (Except CommitError Nat × Coordinator) := do
  match ← c.log.stageAll c.tracked b with
  | .error e => return (.error (.store e), c)
  | .ok (_, b) => c.finish b

/-- Store what the tracked working copies have buffered; inside a transaction only stage it.  If
staging fails the transaction is gone. -/
def push (c : Coordinator) : Dialogue (Except CommitError Nat × Coordinator) :=
  match c.transaction with
  | none => c.settle .empty
  | some b => do
    match ← c.log.stageAll c.tracked b with
    | .error e => return (.error (.store e), { c with transaction := none })
    | .ok (n, b) => return (.ok n, { c with transaction := some b })

/-- Store the transaction and what is still buffered.  The transaction is over whatever comes of
it. -/
def commit (c : Coordinator) : Dialogue (Except CommitError Nat × Coordinator) :=
  match c.transaction with
  | none => return (.error .notOpen, c)
  | some b => { c with transaction := none }.settle b

end Coordinator

end TransferLedger
