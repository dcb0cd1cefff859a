import TransferLedger.Chain.Record
import TransferLedger.Digest.Sha256

/-!
# Snapshots

A state put aside with the version that it stands for, so that not all of a stream has to be read
again.  A snapshot carries a checksum of the text of its state and is used only if the two still
agree.  The state is kept in canonical form, so its text is determined by what it says.
-/

set_option autoImplicit false

namespace TransferLedger

open TransferLedger.Text Json

/-- A state at a version of its stream. -/
structure Snapshot where
  stream : String
  /-- What the state is a state of. -/
  type : String
  version : Nat
  /-- The state, in canonical form. -/
  state : Json
  checksum : String
  createdAt : Instant

/-- What can go wrong with a snapshot. -/
inductive SnapshotError where
  | storage (reason : String)
  | unreadable (reason : String)
  /-- The state does not agree with its checksum. -/
  | checksumMismatch (stream : String) (version : Nat)
  /-- The snapshot is of something else. -/
  | mismatched (expected found : String)
  /-- The bucket that holds the snapshots has failed. -/
  | bucket (reason : String)
  deriving DecidableEq, Repr

def SnapshotError.message : SnapshotError → String
  | .storage reason => "Storage error: " ++ reason
  | .unreadable reason => "Serialization error: " ++ reason
  | .checksumMismatch stream version =>
    "Snapshot checksum mismatch for stream " ++ stream ++ " at version " ++ toString version
  | .mismatched expected found => "Snapshot of " ++ found ++ " cannot restore " ++ expected
  | .bucket reason => "JetStream error: " ++ reason

namespace Snapshot

/-- The checksum of a state: the hash of its text, in hexadecimal digits. -/
def checksumOf (state : Json) : String :=
  String.ofList (Hex.encode (Digest.sha256 (utf8 state.text)).toList)

/-- Put a state aside. -/
def capture (now : Instant) (stream type : String) (version : Nat) (state : Json) : Snapshot :=
  ⟨stream, type, version, state.canonical, checksumOf state.canonical, now⟩

def isIntact (s : Snapshot) : Bool :=
  checksumOf s.state == s.checksum

def verified (s : Snapshot) : Except SnapshotError Snapshot :=
  if s.isIntact then .ok s else .error (.checksumMismatch s.stream s.version)

theorem isIntact_capture (now : Instant) (stream type : String) (version : Nat) (state : Json) :
    (capture now stream type version state).isIntact = true := by
  simp [capture, isIntact]

/-! ## Documents -/

def fieldNames : List String :=
  ["stream_id", "aggregate_type", "version", "state", "checksum", "created_at"]

def toJson (s : Snapshot) : Json :=
  .object [("stream_id", .string s.stream), ("aggregate_type", .string s.type),
    ("version", .ofNat s.version), ("state", s.state), ("checksum", .string s.checksum),
    ("created_at", ofInstant s.createdAt)]

def ofNode? (n : Node) : Option Snapshot := do
  let [stream, type, version, state, checksum, createdAt] ← n.slots? fieldNames | none
  return ⟨← stream.required Node.text?, ← type.required Node.text?, ← version.required Node.word?,
    ← state.required Node.value?, ← checksum.required Node.text?,
    ← createdAt.required Node.instant?⟩

end Snapshot

end TransferLedger
