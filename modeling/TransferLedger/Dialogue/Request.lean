import TransferLedger.Snapshot.Store
import TransferLedger.Store.Storage
import TransferLedger.Transfer.WorkingCopy

/-!
# Requests

What the log and everything above it ask of their surroundings: a medium for the streams, a store
for the snapshots, a clock, and the working copies that several may hold.  Surroundings are anything
with a state that answers requests, and a request may change the state: a medium that others write
to between two requests, a store that answers with the wrong snapshot, or a network that loses its
replies are surroundings like any other.

Each request is answered at one moment.  Between two of them anything may happen.
-/

set_option autoImplicit false

namespace TransferLedger

/-- The name of a working copy that several may hold. -/
abbrev HandleId := Nat

/-- Something asked of the surroundings. -/
inductive Request where
  | head (stream : String)
  /-- At most `limit` records of a stream, in order, from the position `start` on. -/
  | page (stream : String) (start limit : Nat)
  /-- Store all of the appends or none of them, within so many milliseconds. -/
  | commit (allowed : Nat) (appends : List Append)
  | save (x : Snapshot)
  /-- The latest snapshot of a stream, if there is one. -/
  | load (stream : String)
  | time
  | look (h : HandleId)
  /-- The stream of a working copy holds its facts up to a version now.  The copy afterwards. -/
  | confirm (h : HandleId) (version : Nat)
  | place (c : WorkingCopy)
  | perform (h : HandleId) (o : Operation)

/-- What a request is answered with.  Nothing is known of a working copy that there is not. -/
def Request.Answer : Request → Type
  | .head _ => Except StoreError Head
  | .page .. => Except StoreError (List Record)
  | .commit .. => Reply
  | .save _ => Except SnapshotError Unit
  | .load _ => Except SnapshotError (Option Snapshot)
  | .time => Instant
  | .look _ => Option WorkingCopy
  | .confirm .. => Option WorkingCopy
  | .place _ => HandleId
  | .perform .. => Option (Except OperationError Unit)

/-- Surroundings with states of type `ω`. -/
class Surroundings (ω : Type) where
  answer : (q : Request) → ω → q.Answer × ω

end TransferLedger
