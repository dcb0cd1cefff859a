import TransferLedger.Config

/-!
# When a snapshot is due

A snapshot is due when a commit takes a stream to a multiple of the threshold or past one.  A batch
may jump over a multiple; that counts as well.
-/

set_option autoImplicit false

namespace TransferLedger

open Json

/-- When snapshots are due. -/
structure SnapshotPolicy where
  enabled : Bool
  threshold : Nat
  deriving DecidableEq, Repr

namespace SnapshotPolicy

def ofConfig (c : Config) : SnapshotPolicy :=
  ⟨c.useSnapshots, c.threshold⟩

def default : SnapshotPolicy :=
  ofConfig .default

/-- The policy under which no snapshot is ever due. -/
def disabled : SnapshotPolicy :=
  ⟨false, Text.greatestWord⟩

/-- A snapshot is due when a stream moves from one version to another. -/
def isDue (p : SnapshotPolicy) (previous current : Nat) : Bool :=
  if p.enabled = false ∨ p.threshold = 0 ∨ current ≤ previous then false
  else previous / p.threshold < current / p.threshold

def describe (p : SnapshotPolicy) : String :=
  "SnapshotPolicy \x7b enabled: " ++ Config.flagText p.enabled ++ ", threshold: " ++
    toString p.threshold ++ " \x7d"

def toJson (p : SnapshotPolicy) : Json :=
  .object [("enabled", .bool p.enabled), ("threshold", .ofNat p.threshold)]

def ofNode? (n : Node) : Option SnapshotPolicy := do
  let [enabled, threshold] ← n.slots? ["enabled", "threshold"] | none
  return ⟨← enabled.required Node.bool?, ← threshold.required Node.word?⟩

end SnapshotPolicy

end TransferLedger
