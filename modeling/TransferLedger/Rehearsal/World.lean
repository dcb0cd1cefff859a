import TransferLedger.Dialogue.InMemory
import TransferLedger.Ledger

/-!
# A world with disturbances

A ledger in memory whose surroundings can be made to misbehave: the medium goes away after so many
reads, something happens just before a batch is stored, the snapshot store fails or gives the wrong
answer.  What a ledger does about it is then the same each time, because nothing here depends on
chance or on waiting.
-/

set_option autoImplicit false

namespace TransferLedger.Rehearsal

/-- What happens just before a batch is stored. -/
inductive Hook where
  /-- Somebody else appends entries to a stream, at whatever version it has. -/
  | rival (log : Log) (stream : String) (entries : List Entry)
  | outage
  /-- The medium takes so many milliseconds to answer. -/
  | delay (ms : Nat)
  | pass

/-- A ledger's surroundings. -/
structure World where
  base : InMemory
  /-- Reads that are answered before the medium goes away. -/
  readsLeft : Option Nat
  /-- What happens before the next batches, one for each. -/
  hooks : List Hook
  /-- What the snapshot store gives whatever it is asked for. -/
  given : Option Snapshot
  /-- The snapshot store takes nothing. -/
  failSave : Bool
  /-- The snapshot store gives nothing. -/
  failLoad : Bool
  /-- How often the snapshot store was given something. -/
  saves : Nat
  /-- How often the snapshot store was asked for something. -/
  loads : Nat

namespace World

/-- Nothing is stored and nothing misbehaves. -/
def calm (clock : Instant) : World :=
  ⟨.empty clock, none, [], none, false, false, 0, 0⟩

def withMedium (w : World) (m : Memory) : World :=
  { w with base := { w.base with medium := m } }

def withShelf (w : World) (s : Shelf) : World :=
  { w with base := { w.base with shelf := s } }

def setAvailable (w : World) (available : Bool) : World :=
  w.withMedium { w.base.medium with available := available }

def countRead (w : World) : World :=
  match w.readsLeft with
  | none => w
  | some 0 => w.setAvailable false
  | some (n + 1) => { w with readsLeft := some n }

/-- The longest time that a timer can be set to, in milliseconds: thirty years of 365 days.  One
that is set to more is due then. -/
def longestTimer : Nat := 30 * 365 * 24 * 60 * 60 * 1000

/-- An answer that takes so long comes in the time allowed.  If both are due at once the answer is
first. -/
def inTime (ms allowed : Nat) : Bool :=
  min ms longestTimer ≤ min allowed longestTimer

/-- Somebody else appends entries, past the hooks. -/
def intrude (w : World) (log : Log) (stream : String) (entries : List Entry) : World :=
  match (Log.version stream).run w.base with
  | (.error _, base) => { w with base := base }
  | (.ok version, base) => { w with base := ((log.append stream entries version).run base).2 }

/-- Answer a request, past the disturbances. -/
def pass (w : World) (q : Request) : q.Answer × World :=
  let (answer, base) := InMemory.answer q w.base
  (answer, { w with base := base })

/-- Store a batch after what happens before it. -/
def landAfter (w : World) (allowed : Nat) (appends : List Append) : Hook → Reply × World
  | .pass => w.pass (.commit allowed appends)
  | .outage => (w.setAvailable false).pass (.commit allowed appends)
  | .rival log stream entries => (w.intrude log stream entries).pass (.commit allowed appends)
  | .delay ms => if inTime ms allowed then w.pass (.commit allowed appends) else (.late, w)

def offline : SnapshotError :=
  .storage "bucket offline"

def answer : (q : Request) → World → q.Answer × World
  | .page stream start limit, w => w.countRead.pass (.page stream start limit)
  | .commit allowed appends, w =>
    match w.hooks with
    | [] => w.pass (.commit allowed appends)
    | hook :: rest => { w with hooks := rest }.landAfter allowed appends hook
  | .save x, w =>
    let w := { w with saves := w.saves + 1 }
    if w.failSave then (.error offline, w) else w.pass (.save x)
  | .load stream, w =>
    let w := { w with loads := w.loads + 1 }
    if w.failLoad then (.error offline, w)
    else
      match w.given with
      | some x => (.ok (some x), w)
      | none => w.pass (.load stream)
  | q, w => w.pass q

instance : Surroundings World where
  answer := answer

end World

end TransferLedger.Rehearsal
