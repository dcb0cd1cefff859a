import TransferLedger.Rehearsal.Script

/-!
# Running a script

A rehearsal is a world, the ledger that stands in it at the moment, and what the script has given
names to.  What was made by an earlier ledger goes on with that ledger's log.
-/

set_option autoImplicit false

namespace TransferLedger

/-- A script on its way. -/
structure Rehearsal where
  world : Rehearsal.World
  ledger : Ledger
  /-- The key that was given last. -/
  key : List UInt8
  /-- The choice of snapshots that was made last. -/
  snapshots : Bool
  copies : String → Option HandleId
  coordinators : String → Option Coordinator
  readers : String → Option Reader
  batches : String → Option (Log × Batch)

namespace Rehearsal

def opening (clock : Instant) (c : Config) (key : List UInt8) (snapshots : Bool) :
    Except LedgerError Rehearsal :=
  match Ledger.assemble c key snapshots with
  | .error e => .error e
  | .ok ledger =>
    .ok ⟨.calm clock, ledger, key, snapshots, fun _ => none, fun _ => none, fun _ => none,
      fun _ => none⟩

/-- The name of the medium in a ledger's description. -/
def mediumName : String :=
  "Medium"

def now (s : Rehearsal) : Instant :=
  s.world.base.clock

def entries (s : Rehearsal) (drafts : List Draft) : List Entry :=
  drafts.flatMap (Draft.entries s.now)

/-- What is planned, with the time on the clock now and the log of the ledger as it stands. -/
def hook (s : Rehearsal) : Plan → Hook
  | .rival stream drafts => .rival s.ledger.log stream (s.entries drafts)
  | .outage => .outage
  | .delay ms => .delay ms
  | .pass => .pass

/-- Lead a dialogue in the world of the rehearsal. -/
def lead {α : Type} (s : Rehearsal) (t : Dialogue α) : α × Rehearsal :=
  let (a, w) := t.run s.world
  (a, { s with world := w })

def nameCopy (s : Rehearsal) (name : String) (c : WorkingCopy) : Rehearsal :=
  let (h, s) := s.lead (Dialogue.place c)
  { s with copies := Keyed.set s.copies name (some h) }

def setCopy (s : Rehearsal) (h : HandleId) (c : WorkingCopy) : Rehearsal :=
  let base := { s.world.base with copies := s.world.base.copies.set h c }
  { s with world := { s.world with base := base } }

def putCoordinator (s : Rehearsal) (name : String) (c : Coordinator) : Rehearsal :=
  { s with coordinators := Keyed.set s.coordinators name (some c) }

/-- A medium's part of the world changes. -/
def withMedium (s : Rehearsal) (m : Memory) : Rehearsal :=
  { s with world := s.world.withMedium m }

/-- Put another ledger together over the same medium. -/
def reconfigure (s : Rehearsal) (c : Config) (key : Option (List UInt8))
    (snapshots : Option Bool) : Answer × Rehearsal :=
  let s := { s with key := key.getD s.key, snapshots := snapshots.getD s.snapshots }
  match Ledger.assemble c s.key s.snapshots with
  | .error e => (.configured (.error e), s)
  | .ok ledger => (.configured (.ok ledger.log.config), { s with ledger := ledger })

def logStep (s : Rehearsal) : LogStep → Answer × Rehearsal
  | .append stream drafts expected =>
    let (answer, s) := s.lead (s.ledger.log.append stream (s.entries drafts) expected)
    (.version answer, s)
  | .version stream =>
    let (answer, s) := s.lead (Log.version stream)
    (.version answer, s)
  | .read stream start batch brief =>
    let reader := s.ledger.log.reader stream start (batch.getD s.ledger.log.config.batchSize)
    let ((rs, e), s) := s.lead reader.toList
    (.records brief rs e, s)
  | .openReader name stream start batch =>
    let reader := s.ledger.log.reader stream start batch
    (.done, { s with readers := Keyed.set s.readers name (some reader) })
  | .nextRecord name =>
    match s.readers name with
    | none => (.unknownName, s)
    | some reader =>
      let ((item, reader), s) := s.lead reader.step
      (.item item, { s with readers := Keyed.set s.readers name (some reader) })
  | .audit stream =>
    let (answer, s) := s.lead (s.ledger.log.audit stream)
    (.audited answer, s)
  | .beginBatch name =>
    (.done, { s with batches := Keyed.set s.batches name (some (s.ledger.log, .empty)) })
  | .stage name stream drafts expected =>
    match s.batches name with
    | none => (.unknownName, s)
    | some (log, b) =>
      match s.lead (log.stage b stream (s.entries drafts) expected) with
      | (.error e, s) => (.staged (.error e) b, s)
      | (.ok (version, b), s) =>
        (.staged (.ok version) b, { s with batches := Keyed.set s.batches name (some (log, b)) })
  | .commit name =>
    match s.batches name with
    | none => (.unknownName, s)
    | some (log, b) =>
      let (answer, s) := s.lead (log.commit b)
      (.landed answer, { s with batches := Keyed.set s.batches name none })
  | .discard name =>
    match s.batches name with
    | none => (.unknownName, s)
    | some _ => (.done, { s with batches := Keyed.set s.batches name none })

def mediumStep (s : Rehearsal) : MediumStep → Answer × Rehearsal
  | .head stream => (.head (s.world.base.medium.readHead stream), s)
  | .page stream start limit =>
    (.page (s.world.base.medium.cutPage stream (.ofNat start) (.ofNat limit)), s)
  | .count stream => (.count (s.world.base.medium.records stream).length, s)
  | .store appends =>
    match s.world.base.medium.commit appends with
    | .ok m => (.stored (appends.map Append.version) none, s.withMedium m)
    | .error e => (.stored (appends.map Append.version) (some e), s)
  | .tamper stream sequence change =>
    match s.world.base.medium.tamper stream sequence change.apply with
    | some m => (.touched true, s.withMedium m)
    | none => (.touched false, s)
  | .setAvailable available => (.done, { s with world := s.world.setAvailable available })
  | .failReadsAfter reads => (.done, { s with world := { s.world with readsLeft := reads } })
  | .onCommit plans =>
    (.done, { s with world := { s.world with hooks := s.world.hooks ++ plans.map s.hook } })

def snapshotStep (s : Rehearsal) : SnapshotStep → Answer × Rehearsal
  | .save draft =>
    let (answer, s) := s.lead (Dialogue.save (draft.snapshot s.now))
    (.saved answer, s)
  | .overwrite draft =>
    (.done, { s with world :=
      s.world.withShelf (s.world.base.shelf.overwrite (draft.snapshot s.now)) })
  | .load stream =>
    let (answer, s) := s.lead (Dialogue.load stream)
    (.loaded answer, s)
  | .answer draft =>
    (.done, { s with world := { s.world with given := draft.map (SnapshotDraft.snapshot s.now) } })
  | .fail save load =>
    (.done, { s with world := { s.world with failSave := save, failLoad := load } })
  | .inspect => (.shelf s.world.base.shelf.size s.world.saves s.world.loads, s)

def copyStep (s : Rehearsal) : CopyStep → Answer × Rehearsal
  | .blank name stream => (.state (.blank stream), s.nameCopy name (.blank stream))
  | .rebuild stream name =>
    match s.lead (s.ledger.log.rebuild s.ledger.snapshots stream), name with
    | (.ok b, s), some name => (.rebuilt (.ok b), s.nameCopy name b.copy)
    | (answer, s), _ => (.rebuilt answer, s)
  | .call name c =>
    match (s.copies name).bind fun h => s.world.base.copies[h]?.map fun copy => (h, copy) with
    | none => (.unknownName, s)
    | some (h, copy) =>
      let (outcome, copy) := c.run s.now copy
      (.called outcome copy, s.setCopy h copy)
  | .inspect name =>
    match (s.copies name).bind fun h => s.world.base.copies[h]? with
    | none => (.unknownName, s)
    | some copy => (.state copy, s)

/-- What is left after a commit of some kind. -/
def afterCommit (s : Rehearsal) (name : String)
    (t : Dialogue (Except CommitError Nat × Coordinator)) : Answer × Rehearsal :=
  let ((answer, c), s) := s.lead t
  (.committed answer c, s.putCoordinator name c)

def coordinatorStep (s : Rehearsal) (name : String) (c : Coordinator) :
    CoordinatorStep → Answer × Rehearsal
  | .track copy =>
    match s.copies copy with
    | none => (.unknownName, s)
    | some h => (.tracked (c.track h), s.putCoordinator name (c.track h))
  | .push => s.afterCommit name c.push
  | .commit => s.afterCommit name c.commit
  | .begin =>
    match c.begin with
    | .ok c => (.begun (.ok ()) c, s.putCoordinator name c)
    | .error e => (.begun (.error e) c, s)
  | .rollback =>
    match c.rollback with
    | .ok (n, c) => (.committed (.ok n) c, s.putCoordinator name c)
    | .error e => (.committed (.error e) c, s)
  | .inspect => (.coordinator c, s)

/-- The handler of the ledger, with as many attempts as are asked for. -/
def handler (s : Rehearsal) (attempts : Option Nat) : CommandHandler :=
  match attempts with
  | none => s.ledger.handler
  | some n => s.ledger.handler.withAttempts n

/-- Have a command handled, if it could be read. -/
def handle (s : Rehearsal) (command : Option Command) (attempts : Option Nat) :
    Answer × Rehearsal :=
  match command with
  | none => (.unreadable, s)
  | some command =>
    let (answer, s) := s.lead ((s.handler attempts).handle .zero command)
    (.handled answer, s)

def step (s : Rehearsal) : Step → Answer × Rehearsal
  | .setClock time =>
    (.done, { s with world := { s.world with base := { s.world.base with clock := time } } })
  | .reconfigure config key snapshots => s.reconfigure config key snapshots
  | .describe => (.described (s.ledger.describe mediumName) s.ledger.handler.describe, s)
  | .log step => s.logStep step
  | .medium step => s.mediumStep step
  | .snapshots step => s.snapshotStep step
  | .copies step => s.copyStep step
  | .newCoordinator name policy =>
    let c := s.ledger.coordinator
    let c := { c with policy := policy.getD c.policy }
    (.newCoordinator c, s.putCoordinator name c)
  | .coordinator name step =>
    match s.coordinators name with
    | none => (.unknownName, s)
    | some c => s.coordinatorStep name c step
  | .handle command attempts => s.handle command attempts

def run (s : Rehearsal) : List Step → List Answer
  | [] => []
  | x :: rest =>
    let (answer, s) := s.step x
    answer :: s.run rest

end Rehearsal

end TransferLedger
