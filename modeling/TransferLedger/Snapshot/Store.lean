import TransferLedger.Snapshot.Basic
import TransferLedger.Store.Keyed

/-!
# Snapshots on a shelf

A shelf is a store of snapshots in memory.  It keeps one snapshot of each stream, the newest: one
that is not newer than what it has is passed over.  It gives out none that is not intact.
-/

set_option autoImplicit false

namespace TransferLedger

/-- Snapshots in memory. -/
structure Shelf where
  latest : String → Option Snapshot
  /-- The number of streams with a snapshot. -/
  size : Nat

namespace Shelf

def empty : Shelf :=
  ⟨fun _ => none, 0⟩

def isEmpty (s : Shelf) : Bool :=
  s.size == 0

def overwrite (s : Shelf) (x : Snapshot) : Shelf :=
  ⟨Keyed.set s.latest x.stream (some x),
    if (s.latest x.stream).isSome then s.size else s.size + 1⟩

/-- Take a snapshot, unless there is one that is as new. -/
def save (s : Shelf) (x : Snapshot) : Shelf :=
  match s.latest x.stream with
  | some old => if x.version ≤ old.version then s else s.overwrite x
  | none => s.overwrite x

/-- The snapshot of a stream, if it is intact. -/
def load (s : Shelf) (stream : String) : Except SnapshotError (Option Snapshot) :=
  match s.latest stream with
  | none => .ok none
  | some x => x.verified.map some

end Shelf

end TransferLedger
