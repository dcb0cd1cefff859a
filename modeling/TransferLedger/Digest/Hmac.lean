import TransferLedger.Digest.Sha256

/-!
# Keyed hashing

HMAC (RFC 2104) over SHA-256: the message is hashed under one mask of the key, and the result again
under another.
-/

set_option autoImplicit false

namespace TransferLedger.Digest

/-- A key as one block: hashed first if it is longer than a block, filled up with zeros. -/
def keyBlock (key : List UInt8) : List UInt8 :=
  let short := if key.length ≤ 64 then key else (sha256 key).toList
  short ++ List.replicate (64 - short.length) 0

def hmac (key message : List UInt8) : Vector UInt8 32 :=
  let block := keyBlock key
  let inner := sha256 (block.map (· ^^^ 0x36) ++ message)
  sha256 (block.map (· ^^^ 0x5c) ++ inner.toList)

end TransferLedger.Digest
