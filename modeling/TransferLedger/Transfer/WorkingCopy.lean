import TransferLedger.Transfer.Operation

/-!
# Working copies

A transfer in somebody's hands: the state, the version of the stream that it stands for, and the
facts that have been decided but are not stored yet.  The durable version is the one that the
stream is known to have; the version counts the buffered facts as well.
-/

set_option autoImplicit false

namespace TransferLedger

/-- A transfer in somebody's hands. -/
structure WorkingCopy where
  transfer : Transfer
  /-- The version of the stream once all is stored. -/
  version : Nat
  /-- The version of the stream as far as it is known to be stored. -/
  durable : Nat
  /-- Facts that are not stored yet, the oldest first. -/
  pending : List Event
  deriving DecidableEq

namespace WorkingCopy

/-- A state that stands for so many stored facts. -/
def replayed (t : Transfer) (version : Nat) : WorkingCopy :=
  ⟨t, version, version, []⟩

def blank (stream : String) : WorkingCopy :=
  replayed (.blank stream) 0

def stream (c : WorkingCopy) : String :=
  c.transfer.id

def hasPending (c : WorkingCopy) : Bool :=
  !c.pending.isEmpty

/-- Take a fact into the state alone. -/
def apply (c : WorkingCopy) (e : Event) : Except TransitionError WorkingCopy :=
  match c.transfer.apply e with
  | .ok t => .ok { c with transfer := t }
  | .error x => .error x

/-- The state stands for so many stored facts. -/
def markReplayed (c : WorkingCopy) (version : Nat) : WorkingCopy :=
  { c with version := version, durable := version }

/-- The stream now holds facts up to a version, so the oldest buffered ones are stored. -/
def markCommitted (c : WorkingCopy) (version : Nat) : WorkingCopy :=
  { c with
    pending := c.pending.drop (version - c.durable)
    durable := version
    version := max c.version version }

/-- Perform an operation: its fact goes into the state and into the buffer. -/
def perform (c : WorkingCopy) (now : Instant) (o : Operation) :
    Except OperationError WorkingCopy :=
  match c.transfer.decide now o with
  | .error x => .error x
  | .ok e =>
    match c.transfer.apply e with
    | .error x => .error (.notAllowed x.state x.kind)
    | .ok t => .ok { c with transfer := t, version := c.version + 1, pending := c.pending ++ [e] }

end WorkingCopy

end TransferLedger
