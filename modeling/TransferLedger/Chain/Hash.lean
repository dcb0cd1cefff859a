import TransferLedger.Json.Decode
import TransferLedger.Text.Hex
import TransferLedger.Text.Quoted
import TransferLedger.Text.Utf8

/-!
# Hashes of the chain

Thirty-two bytes that stand for a record and everything before it.  A stream starts from the root
hash, which is all zeros.  In text a hash is sixty-four hexadecimal digits.
-/

set_option autoImplicit false

namespace TransferLedger

open TransferLedger.Text

/-- The wording of an error in hexadecimal text.  A stray byte is shown as the character of its
number. -/
def Text.Hex.HexError.message : Text.Hex.HexError → String
  | .oddLength => "Odd number of digits"
  | .wrongLength => "Invalid string length"
  | .invalidDigit byte position =>
    "Invalid character " ++ quotedSingle (Char.ofNat byte.toNat) ++ " at position " ++
      toString position

structure ChainHash where
  bytes : Vector UInt8 32
  deriving DecidableEq

namespace ChainHash

/-- The predecessor of the first record of every stream. -/
def root : ChainHash :=
  ⟨Vector.replicate 32 0⟩

def hex (h : ChainHash) : String :=
  String.ofList (Hex.encode h.bytes.toList)

def ofHex (s : String) : Except Hex.HexError ChainHash :=
  match _read : Hex.decodeExactly 32 (utf8 s) with
  | .ok bs => .ok ⟨⟨bs.toArray, by simpa using Hex.length_of_decodeExactly _read⟩⟩
  | .error e => .error e

def describe (h : ChainHash) : String :=
  "EventHash(" ++ h.hex ++ ")"

instance : Inhabited ChainHash := ⟨root⟩

end ChainHash

namespace Json

def Node.hash? (n : Node) : Option ChainHash :=
  n.text?.bind fun s => (ChainHash.ofHex s).toOption

def ofHash (h : ChainHash) : Json :=
  .string h.hex

end Json

end TransferLedger
