import TransferLedger.Text.Hex
import TransferLedger.Transfer.Command

/-!
# Acknowledgments

What the sender of an accepted command is told: the execution of the command has an identifier of
its own, the transfer has reached a version, and it took so many attempts.

An identifier is sixteen bytes.  It is written in five groups of hexadecimal digits, and read also
without hyphens, in braces, or as a name in the space `urn:uuid:`, whose letters may be of either
case.
-/

set_option autoImplicit false

namespace TransferLedger

open TransferLedger.Text Json

/-- The identifier of one execution of a command. -/
structure CommandId where
  bytes : Vector UInt8 16
  deriving DecidableEq

namespace CommandId

/-- Thirty-two digits in groups of eight, four, four, four and twelve. -/
def grouped (ds : List Char) : List Char :=
  ds.take 8 ++ '-' :: (ds.drop 8).take 4 ++ '-' :: (ds.drop 12).take 4 ++
    '-' :: (ds.drop 16).take 4 ++ '-' :: ds.drop 20

/-- The digits of five such groups. -/
def ungrouped? (cs : List Char) : Option (List Char) :=
  let ds := cs.take 8 ++ (cs.drop 9).take 4 ++ (cs.drop 14).take 4 ++ (cs.drop 19).take 4 ++
    cs.drop 24
  if grouped ds = cs then some ds else none

/-- The digits of an identifier in any of its forms. -/
def digits? (cs : List Char) : Option (List Char) :=
  if cs.length = 32 then some cs
  else if cs.length = 36 then ungrouped? cs
  else if cs.length = 38 ∧ cs.head? = some '\x7b' ∧ cs.getLast? = some '\x7d' then
    ungrouped? (cs.drop 1).dropLast
  else if cs.length = 45 ∧ (cs.take 9).map Char.toLower = "urn:uuid:".toList then
    ungrouped? (cs.drop 9)
  else none

def text (i : CommandId) : String :=
  String.ofList (grouped (Hex.encode i.bytes.toList))

def ofText? (s : String) : Option CommandId :=
  match digits? s.toList with
  | none => none
  | some ds =>
    match _read : Hex.decodeExactly 16 (utf8 (String.ofList ds)) with
    | .ok bs => some ⟨⟨bs.toArray, by simpa using Hex.length_of_decodeExactly _read⟩⟩
    | .error _ => none

def zero : CommandId :=
  ⟨Vector.replicate 16 0⟩

end CommandId

/-- What the sender of an accepted command is told. -/
structure Acknowledgment where
  command : CommandId
  kind : CommandKind
  /-- The transfer that has changed. -/
  transfer : String
  /-- The version of its stream after the command. -/
  version : Nat
  /-- Attempts made, the lost ones included. -/
  attempts : Nat
  deriving DecidableEq

namespace Acknowledgment

def toJson (a : Acknowledgment) : Json :=
  .object [("command_id", .string a.command.text), ("kind", .string a.kind.name),
    ("transaction_id", .string a.transfer), ("version", .ofNat a.version),
    ("attempts", .ofNat a.attempts)]

def fieldNames : List String :=
  ["command_id", "kind", "transaction_id", "version", "attempts"]

def ofNode? (n : Node) : Option Acknowledgment := do
  let [command, kind, transfer, version, attempts] ← n.slots? fieldNames | none
  return ⟨← command.required fun n => n.text?.bind CommandId.ofText?,
    ← kind.required fun n => n.name?.bind CommandKind.ofName?, ← transfer.required Node.text?,
    ← version.required Node.word?, ← attempts.required Node.short?⟩

end Acknowledgment

end TransferLedger
