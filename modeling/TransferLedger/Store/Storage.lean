import TransferLedger.Chain.Cursor

/-!
# Storage of streams

What is given to a medium, what it answers, and what can go wrong there.

Records come to a medium in appends, each with the version that its stream must have.  The appends
of one request land together or not at all.
-/

set_option autoImplicit false

namespace TransferLedger

/-- What can go wrong between the log and its medium. -/
inductive StoreError where
  /-- A stream is not at the version that an append expects. -/
  | conflict (stream : String) (expected current : Nat)
  /-- Records do not form a chain. -/
  | integrity (e : ChainError)
  | unavailable (reason : String)
  /-- A record cannot be written or read. -/
  | unreadable (reason : String)
  deriving DecidableEq, Repr

namespace StoreError

def message : StoreError → String
  | conflict stream expected current =>
    "Concurrency conflict on stream " ++ stream ++ ": expected version " ++ toString expected ++
      ", but current version is " ++ toString current
  | integrity e => "Integrity error: " ++ e.message
  | unavailable reason => "Storage unavailable: " ++ reason
  | unreadable reason => "Serialization error: " ++ reason

def isConflict : StoreError → Bool
  | conflict .. => true
  | _ => false

/-- What is stored has been tampered with. -/
def isIntegrity : StoreError → Bool
  | integrity _ => true
  | _ => false

/-- Another attempt on fresh state may succeed. -/
def isRetryable (e : StoreError) : Bool :=
  e.isConflict

end StoreError

/-- Records for one stream, and the version that the stream must have. -/
structure Append where
  stream : String
  expected : Nat
  records : List Record
  deriving DecidableEq

def Append.version (a : Append) : Nat :=
  a.expected + a.records.length

/-- The answer of a medium to appends. -/
inductive Reply where
  | applied
  /-- None has landed. -/
  | refused (e : StoreError)
  /-- There was no answer in the time allowed. -/
  | late

end TransferLedger
