import TransferLedger.Chain.Hash
import TransferLedger.Json.Writer
import TransferLedger.Time.Stamp

/-!
# Records

An entry is a fact on its way into a stream: its type, its text and its time.  Stored, it is a
record: it has a stream, a position in it, the hash of its predecessor and a hash of its own.  The
head of a stream is the position and the hash of its last record.
-/

set_option autoImplicit false

namespace TransferLedger

/-- A fact that has no place in a stream yet. -/
structure Entry where
  kind : String
  payload : String
  recordedAt : Stamp
  deriving DecidableEq

/-- A fact in its place in a stream. -/
structure Record where
  stream : String
  sequence : Nat
  kind : String
  payload : String
  recordedAt : Stamp
  previous : ChainHash
  hash : ChainHash
  deriving DecidableEq

/-- The end of a stream. -/
structure Head where
  version : Nat
  hash : ChainHash
  deriving DecidableEq

def Head.empty : Head :=
  ⟨0, .root⟩

namespace Record

def entry (r : Record) : Entry :=
  ⟨r.kind, r.payload, r.recordedAt⟩

def head (r : Record) : Head :=
  ⟨r.sequence, r.hash⟩

end Record

/-- The end of a list of records that starts behind a given head. -/
def Head.after (h : Head) : List Record → Head
  | [] => h
  | r :: rest => Head.after r.head rest

/-! ## Documents -/

namespace Json

def Node.instant? (n : Node) : Option Instant :=
  n.text?.bind Instant.ofText?

def ofInstant (i : Instant) : Json :=
  .string i.text

def Node.stamp? (n : Node) : Option Stamp :=
  n.instant?.map Instant.stamp

def ofStamp (s : Stamp) : Json :=
  .string s.text

end Json

open Json

def Entry.fieldNames : List String :=
  ["event_type", "payload", "recorded_at"]

def Entry.ofNode? (n : Node) : Option Entry := do
  let [kind, payload, at_] ← n.slots? Entry.fieldNames | none
  return ⟨← kind.required Node.text?, ← payload.required Node.text?, ← at_.required Node.stamp?⟩

def Entry.toJson (e : Entry) : Json :=
  .object [("event_type", .string e.kind), ("payload", .string e.payload),
    ("recorded_at", ofStamp e.recordedAt)]

def Record.fieldNames : List String :=
  ["stream_id", "sequence", "event_type", "payload", "recorded_at", "previous_hash", "hash"]

def Record.ofNode? (n : Node) : Option Record := do
  let [stream, sequence, kind, payload, at_, previous, hash] ← n.slots? Record.fieldNames | none
  return ⟨← stream.required Node.text?, ← sequence.required Node.word?,
    ← kind.required Node.text?, ← payload.required Node.text?, ← at_.required Node.stamp?,
    ← previous.required Node.hash?, ← hash.required Node.hash?⟩

def Record.toJson (r : Record) : Json :=
  .object [("stream_id", .string r.stream), ("sequence", .ofNat r.sequence),
    ("event_type", .string r.kind), ("payload", .string r.payload),
    ("recorded_at", ofStamp r.recordedAt), ("previous_hash", ofHash r.previous),
    ("hash", ofHash r.hash)]

end TransferLedger
