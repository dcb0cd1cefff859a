import TransferLedger.Chain.Record
import TransferLedger.Digest.Hmac

/-!
# Sealing

A sealer gives each record its hash: a keyed hash over the fields of the record and the hash of its
predecessor.  Nothing about the chain depends on how the hash is computed, so a sealer is any
function from bytes to hashes; the one that is used is HMAC-SHA-256 under a secret key.

What is hashed is the fields one after the other.  Fields of varying length come with their length
in front, so no two records have the same bytes.
-/

set_option autoImplicit false

namespace TransferLedger

open TransferLedger.Text

/-! ## Keys -/

/-- Why there is no usable key. -/
inductive KeyError where
  | missing (reason : String)
  | invalid (reason : String)
  deriving DecidableEq, Repr

def KeyError.message : KeyError → String
  | .missing reason => "Hash key missing: " ++ reason
  | .invalid reason => "Invalid hash key: " ++ reason

def keyVariable : String :=
  "CIM_LEDGER_HASH_KEY"

/-- The key from the value of the variable: hexadecimal digits, blanks around them aside. -/
def keyFromEnvironment (value : Option String) : Except KeyError (List UInt8) :=
  match value with
  | none => .error (.missing (keyVariable ++ " is not set"))
  | some text =>
    match Hex.decode (utf8 (trimmed text)) with
    | .ok bytes => .ok bytes
    | .error e => .error (.invalid (keyVariable ++ " must be hex: " ++ e.message))

/-! ## Sealers -/

/-- A way of giving bytes a hash. -/
structure Sealer where
  tag : List UInt8 → ChainHash

/-- A number in so many bytes, least significant first. -/
def littleEndian : Nat → Nat → List UInt8
  | 0, _ => []
  | size + 1, n => UInt8.ofNat (n % 256) :: littleEndian size (n / 256)

/-- A text with its length in front. -/
def measured (s : String) : List UInt8 :=
  littleEndian 8 (utf8 s).length ++ utf8 s

/-- The bytes that are hashed for a record. -/
def sealInput (previous : ChainHash) (stream : String) (sequence : Nat) (e : Entry) : List UInt8 :=
  measured stream ++ littleEndian 8 sequence ++ measured e.kind ++
    measured e.recordedAt.fullText ++ measured e.payload ++ previous.bytes.toList

namespace Sealer

/-- The sealer that uses a key, which must not be empty. -/
def ofKey (key : List UInt8) : Except KeyError Sealer :=
  if key.isEmpty then .error (.invalid "hash key must not be empty")
  else .ok ⟨fun bytes => ⟨Digest.hmac key bytes⟩⟩

def describe (_ : Sealer) : String :=
  "ChainVerifier \x7b .. \x7d"

def hash (s : Sealer) (previous : ChainHash) (stream : String) (sequence : Nat) (e : Entry) :
    ChainHash :=
  s.tag (sealInput previous stream sequence e)

/-- The record that an entry becomes behind a head. -/
def record (s : Sealer) (stream : String) (h : Head) (e : Entry) : Record :=
  ⟨stream, h.version + 1, e.kind, e.payload, e.recordedAt, h.hash,
    s.hash h.hash stream (h.version + 1) e⟩

/-- The records that entries become behind a head, each behind the one before it. -/
def chain (s : Sealer) (stream : String) : Head → List Entry → List Record
  | _, [] => []
  | h, e :: rest => s.record stream h e :: s.chain stream (s.record stream h e).head rest

/-- The record follows a predecessor with the given hash, and its own hash is right. -/
def accepts (s : Sealer) (r : Record) (previous : ChainHash) : Bool :=
  r.previous == previous && s.hash previous r.stream r.sequence r.entry == r.hash

/-- Records that continue a stream from a head: positions without gaps, each record behind the one
before it, each hash that of the record's own fields. -/
def Linked (s : Sealer) (stream : String) : Head → List Record → Prop
  | _, [] => True
  | h, r :: rest =>
    r.stream = stream ∧ r.sequence = h.version + 1 ∧ r.previous = h.hash ∧
      r.hash = s.hash r.previous r.stream r.sequence r.entry ∧ s.Linked stream r.head rest

theorem length_chain (s : Sealer) (stream : String) (h : Head) (es : List Entry) :
    (s.chain stream h es).length = es.length := by
  induction es generalizing h with
  | nil => rfl
  | cons e rest ih => simp [chain, ih]

theorem chain_append (s : Sealer) (stream : String) (h : Head) (es fs : List Entry) :
    s.chain stream h (es ++ fs) =
      s.chain stream h es ++ s.chain stream (h.after (s.chain stream h es)) fs := by
  induction es generalizing h with
  | nil => rfl
  | cons e rest ih => simp [chain, Head.after, ih]

end Sealer

end TransferLedger
