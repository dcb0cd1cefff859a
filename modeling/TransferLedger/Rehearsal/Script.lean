import TransferLedger.Rehearsal.Call
import TransferLedger.Rehearsal.World

/-!
# Scripts

The steps of a rehearsal and the answers to them.  Working copies, coordinators, readers and batches
go by names that the script gives them; a name that is given again means the new thing from then on.
-/

set_option autoImplicit false

namespace TransferLedger.Rehearsal

/-- Entries that get their time when they are used. -/
inductive Draft where
  /-- The same entry so many times, at a given time or the clock's. -/
  | plain (kind payload : String) (time : Option Instant) (times : Nat)
  | fact (e : Event)

/-- The entries of a draft when the clock stands at a given time. -/
def Draft.entries (now : Instant) : Draft → List Entry
  | .plain kind payload time times => List.replicate times ⟨kind, payload, time.getD now⟩
  | .fact e => [e.entry now]

/-- A snapshot that is captured when it is used; its checksum may be replaced. -/
structure SnapshotDraft where
  stream : String
  type : String
  version : Nat
  state : Json
  checksum : Option String

/-- The snapshot of a draft when the clock stands at a given time. -/
def SnapshotDraft.snapshot (now : Instant) (d : SnapshotDraft) : Snapshot :=
  let s := Snapshot.capture now d.stream d.type d.version d.state
  { s with checksum := d.checksum.getD s.checksum }

/-- New values for some fields of a record. -/
structure RecordChange where
  stream : Option String
  sequence : Option Nat
  kind : Option String
  payload : Option String
  recordedAt : Option Instant
  previous : Option ChainHash
  hash : Option ChainHash

def RecordChange.apply (c : RecordChange) (r : Record) : Record :=
  ⟨c.stream.getD r.stream, c.sequence.getD r.sequence, c.kind.getD r.kind,
    c.payload.getD r.payload, (c.recordedAt.map Instant.stamp).getD r.recordedAt,
    c.previous.getD r.previous,
    c.hash.getD r.hash⟩

/-- What is planned to happen before a batch is stored. -/
inductive Plan where
  | rival (stream : String) (drafts : List Draft)
  | outage
  | delay (ms : Nat)
  | pass

inductive LogStep where
  | append (stream : String) (drafts : List Draft) (expected : Nat)
  | version (stream : String)
  /-- Without a size of pages, the configured one. -/
  | read (stream : String) (start : Nat) (batch : Option Nat) (brief : Bool)
  | openReader (reader stream : String) (start batch : Nat)
  | nextRecord (reader : String)
  | audit (stream : String)
  | beginBatch (batch : String)
  | stage (batch stream : String) (drafts : List Draft) (expected : Nat)
  | commit (batch : String)
  | discard (batch : String)

/-- A step at the medium, past the hooks. -/
inductive MediumStep where
  | head (stream : String)
  | page (stream : String) (start limit : Nat)
  | count (stream : String)
  | store (appends : List Append)
  | tamper (stream : String) (sequence : Nat) (change : RecordChange)
  | setAvailable (available : Bool)
  /-- Go away after so many reads, or stay. -/
  | failReadsAfter (reads : Option Nat)
  | onCommit (plans : List Plan)

inductive SnapshotStep where
  | save (draft : SnapshotDraft)
  | overwrite (draft : SnapshotDraft)
  | load (stream : String)
  /-- Give this snapshot whatever is asked for, or answer truly again. -/
  | answer (draft : Option SnapshotDraft)
  | fail (save load : Bool)
  | inspect

inductive CopyStep where
  | blank (copy stream : String)
  /-- With a name, the rebuilt copy gets it. -/
  | rebuild (stream : String) (copy : Option String)
  | call (copy : String) (c : Call)
  | inspect (copy : String)

inductive CoordinatorStep where
  | track (copy : String)
  | push
  | begin
  | commit
  | rollback
  | inspect

inductive Step where
  | setClock (time : Instant)
  /-- Another ledger over the same medium; without a key or a choice of snapshots, those before. -/
  | reconfigure (config : Config) (key : Option (List UInt8)) (snapshots : Option Bool)
  | describe
  | log (s : LogStep)
  | medium (s : MediumStep)
  | snapshots (s : SnapshotStep)
  | copies (s : CopyStep)
  /-- A new coordinator, with another policy than the ledger's if one is given. -/
  | newCoordinator (coordinator : String) (policy : Option SnapshotPolicy)
  | coordinator (coordinator : String) (s : CoordinatorStep)
  /-- A command, if it could be read, with so many attempts instead of the ledger's. -/
  | handle (command : Option Command) (attempts : Option Nat)

inductive Answer where
  | done
  | unknownName
  | unreadable
  | configured (result : Except LedgerError Config)
  | described (ledger handler : String)
  | version (result : Except StoreError Nat)
  | records (brief : Bool) (rs : List Record) (e : Option StoreError)
  | item (i : Item)
  | audited (result : Except StoreError Audit)
  | staged (result : Except StoreError Nat) (b : Batch)
  | landed (result : Except StoreError Nat)
  | head (result : Except StoreError Head)
  | page (result : Except StoreError (List Record))
  | count (n : Nat)
  | stored (versions : List Nat) (e : Option StoreError)
  | touched (found : Bool)
  | saved (result : Except SnapshotError Unit)
  | loaded (result : Except SnapshotError (Option Snapshot))
  | shelf (size saves loads : Nat)
  | state (c : WorkingCopy)
  | rebuilt (result : Except ReplayError Rebuilt)
  | called (outcome : Outcome) (c : WorkingCopy)
  | newCoordinator (c : Coordinator)
  | coordinator (c : Coordinator)
  | tracked (c : Coordinator)
  | begun (result : Except CommitError Unit) (c : Coordinator)
  | committed (result : Except CommitError Nat) (c : Coordinator)
  | handled (result : Except CommandError Acknowledgment)

end TransferLedger.Rehearsal
