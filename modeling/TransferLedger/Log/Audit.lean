import TransferLedger.Log.Reader

/-!
# Auditing a stream

The audit recomputes the hash of every record of a stream.  It reads without checking and follows
the chain with a cursor of its own, so it does not depend on whether the log checks what it reads.
-/

set_option autoImplicit false

namespace TransferLedger

structure Audit where
  stream : String
  /-- The number of records whose hashes are right. -/
  verified : Nat
  /-- The hash of the last one. -/
  head : ChainHash
  deriving DecidableEq

namespace Log

/-- The log without a check on reading. -/
def unverified (log : Log) : Log :=
  { log with config := { log.config with verifyOnRead := false } }

/-- Recompute the hash of every record of a stream. -/
def audit (log : Log) (stream : String) : Dialogue (Except StoreError Audit) := do
  match ← (log.unverified.streamReader stream 1).run (Cursor.advance log.sealer)
      (.start stream) with
  | (c, .ended) => return .ok ⟨stream, c.version, c.head⟩
  | (_, .failed e) => return .error e
  | (_, .refused e) => return .error (.integrity e)

end Log

end TransferLedger
