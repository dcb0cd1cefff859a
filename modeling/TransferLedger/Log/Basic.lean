import TransferLedger.Config
import TransferLedger.Dialogue.Basic

/-!
# The log

The log stands in front of a medium: it gives entries their places and hashes when they are
appended, and checks the chain when they are read.  It is a sealer and options; what is stored is
the medium's, and the log only talks to it.

Appends to any number of streams are collected in a batch.  The version that an append expects is
checked when it is staged, against the end of the stream or against what the batch already holds for
it, and again by the medium when the batch is committed.
-/

set_option autoImplicit false

namespace TransferLedger

/-- A log in front of some medium. -/
structure Log where
  sealer : Sealer
  config : Config

/-- Appends that have been staged, the oldest first. -/
structure Batch where
  staged : List Append
  deriving DecidableEq

namespace Batch

def empty : Batch :=
  ⟨[]⟩

def records (b : Batch) : List Record :=
  b.staged.flatMap Append.records

def size (b : Batch) : Nat :=
  b.records.length

def isEmpty (b : Batch) : Bool :=
  b.staged.isEmpty

/-- The end that a batch leaves to a stream, if it has records for it. -/
def head? (b : Batch) (stream : String) : Option Head :=
  ((b.records.filter fun r => r.stream == stream).getLast?).map Record.head

end Batch

namespace Log

def version (stream : String) : Dialogue (Except StoreError Nat) := do
  match ← Dialogue.head stream with
  | .ok h => return .ok h.version
  | .error e => return .error e

/-- The end of a stream as a batch would leave it. -/
def headBehind (b : Batch) (stream : String) : Dialogue (Except StoreError Head) :=
  match b.head? stream with
  | some h => return .ok h
  | none => Dialogue.head stream

/-- The batch with an append behind a known end of its stream, and the version that the stream gets.
Nothing is staged for an append without entries. -/
def stageBehind (log : Log) (b : Batch) (stream : String) (entries : List Entry) (expected : Nat)
    (h : Head) : Except StoreError (Nat × Batch) :=
  if h.version ≠ expected then .error (.conflict stream expected h.version)
  else if entries.isEmpty then .ok (expected, b)
  else
    let a : Append := ⟨stream, expected, log.sealer.chain stream h entries⟩
    .ok (a.version, ⟨b.staged ++ [a]⟩)

def stage (log : Log) (b : Batch) (stream : String) (entries : List Entry) (expected : Nat) :
    Dialogue (Except StoreError (Nat × Batch)) := do
  match ← headBehind b stream with
  | .ok h => return log.stageBehind b stream entries expected h
  | .error e => return .error e

/-- The error of an append that took too long. -/
def tooLate (allowed : Nat) : StoreError :=
  .unavailable ("append did not complete within " ++ toString allowed ++ "ms")

/-- Store all that is staged, or nothing.  The number of records; a batch without any does not
reach the medium. -/
def commit (log : Log) (b : Batch) : Dialogue (Except StoreError Nat) := do
  if b.size = 0 then return .ok 0
  match ← Dialogue.commit log.config.timeout b.staged with
  | .applied => return .ok b.size
  | .refused e => return .error e
  | .late => return .error (tooLate log.config.timeout)

/-- Append entries to one stream.  Its new version. -/
def append (log : Log) (stream : String) (entries : List Entry) (expected : Nat) :
    Dialogue (Except StoreError Nat) := do
  match ← log.stage .empty stream entries expected with
  | .error e => return .error e
  | .ok (version, b) =>
    match ← log.commit b with
    | .ok _ => return .ok version
    | .error e => return .error e

end Log

end TransferLedger
