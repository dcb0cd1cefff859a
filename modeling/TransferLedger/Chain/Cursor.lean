import TransferLedger.Chain.Sealer

/-!
# Checking a chain

A cursor walks along a stream.  It knows the stream, the position it has reached and the hash found
there, and takes the next record only if the record has the next position, follows that hash, and
is sealed.  A refusal leaves it where it is.
-/

set_option autoImplicit false

namespace TransferLedger

/-- Why a record does not continue a chain. -/
inductive ChainError where
  /-- The record does not follow the hash before it. -/
  | brokenChain (stream : String) (sequence : Nat) (reason : String)
  /-- The hash of the record is not that of its fields. -/
  | hashMismatch (stream : String) (sequence : Nat)
  /-- The record has another position than the next one. -/
  | sequenceGap (stream : String) (expected found : Nat)
  deriving DecidableEq, Repr

namespace ChainError

def message : ChainError → String
  | .brokenChain stream sequence reason =>
    "Broken chain in stream " ++ stream ++ " at sequence " ++ toString sequence ++ ": " ++ reason
  | .hashMismatch stream sequence =>
    "Hash mismatch in stream " ++ stream ++ " at sequence " ++ toString sequence
  | .sequenceGap stream expected found =>
    "Sequence gap in stream " ++ stream ++ ": expected " ++ toString expected ++ ", found " ++
      toString found

/-- The position at which the check failed. -/
def sequence : ChainError → Nat
  | .brokenChain _ sequence _ => sequence
  | .hashMismatch _ sequence => sequence
  | .sequenceGap _ _ found => found

end ChainError

/-- A place in a stream that a check has reached. -/
structure Cursor where
  stream : String
  reached : Head
  deriving DecidableEq

namespace Cursor

def start (stream : String) : Cursor :=
  ⟨stream, .empty⟩

def resume (stream : String) (sequence : Nat) (hash : ChainHash) : Cursor :=
  ⟨stream, ⟨sequence, hash⟩⟩

def version (c : Cursor) : Nat :=
  c.reached.version

def head (c : Cursor) : ChainHash :=
  c.reached.hash

/-- Take the next record, or say why it is not the next one. -/
def advance (s : Sealer) (c : Cursor) (r : Record) : Except ChainError Cursor :=
  if r.sequence ≠ c.version + 1 then
    .error (.sequenceGap c.stream (c.version + 1) r.sequence)
  else if r.previous ≠ c.head then
    .error (.brokenChain c.stream r.sequence
      ("previous hash " ++ r.previous.hex ++ " does not match " ++ c.head.hex))
  else if r.stream ≠ c.stream ∨ s.accepts r c.head = false then
    .error (.hashMismatch c.stream r.sequence)
  else .ok ⟨c.stream, r.head⟩

/-- Take records one after the other, up to the first that is refused. -/
def follow (s : Sealer) (c : Cursor) : List Record → Except ChainError Cursor
  | [] => .ok c
  | r :: rest =>
    match c.advance s r with
    | .ok c => c.follow s rest
    | .error e => .error e

/-- Offer records one after the other and go on after a refusal.  The cursor after all of them. -/
def offerAll (s : Sealer) (c : Cursor) : List Record → Cursor
  | [] => c
  | r :: rest =>
    match c.advance s r with
    | .ok c => c.offerAll s rest
    | .error _ => c.offerAll s rest

end Cursor

/-- Check records from the start of a stream.  The hash of the last one. -/
def verifyChain (s : Sealer) (stream : String) (records : List Record) :
    Except ChainError ChainHash :=
  ((Cursor.start stream).follow s records).map Cursor.head

end TransferLedger
