import TransferLedger.Transfer.Operation

/-!
# Commands

A command asks one operation of one transfer.  In a document it is an object with the kind of the
operation as its only key, and an outcome likewise.  The fields behind such a key may be given by
position when the document is read from text; a value that has been read before has to name them,
which is what `keyed` asks for below.
-/

set_option autoImplicit false

namespace TransferLedger

open Json

inductive CommandKind where
  | initiate
  | authorize
  | settle
  | reverse
  | dispute
  deriving DecidableEq, Repr

/-- A request to change a transfer. -/
structure Command where
  /-- The transfer, and its stream. -/
  transfer : String
  operation : Operation
  deriving DecidableEq

namespace CommandKind

def name : CommandKind → String
  | initiate => "Initiate"
  | authorize => "Authorize"
  | settle => "Settle"
  | reverse => "Reverse"
  | dispute => "Dispute"

def ofName? (name : String) : Option CommandKind :=
  [initiate, authorize, settle, reverse, dispute].find? fun k => k.name == name

/-- The command starts a stream instead of extending one. -/
def createsStream : CommandKind → Bool
  | initiate => true
  | _ => false

end CommandKind

/-- The kind of command that an operation belongs to. -/
def Operation.kind : Operation → CommandKind
  | .initiate _ => .initiate
  | .authorize _ => .authorize
  | .settle _ => .settle
  | .reverse _ => .reverse
  | .dispute _ => .dispute

def Command.kind (c : Command) : CommandKind :=
  c.operation.kind

/-! ## Writing -/

/-- An alternative with its data as a value. -/
def variant (name : String) (fields : List (String × Json)) : Json :=
  .object [(name, .object fields)]

def Authorization.toJson : Authorization → Json
  | .approved code => variant "Approved" [("authorization_code", .string code)]
  | .declined code reason => variant "Declined" [("code", .string code), ("reason", .string reason)]

def Settlement.toJson : Settlement → Json
  | .settled reference => variant "Settled" [("settlement_reference", .string reference)]
  | .rejected code reason => variant "Rejected" [("code", .string code), ("reason", .string reason)]

def Operation.fields : Operation → List (String × Json)
  | .initiate terms =>
    [("amount", .ofWord terms.amount), ("currency", .string terms.currency),
      ("source_account", .string terms.source), ("destination_account", .string terms.destination)]
  | .authorize outcome => [("outcome", outcome.toJson)]
  | .settle outcome => [("outcome", outcome.toJson)]
  | .reverse reason => [("reason", .string reason)]
  | .dispute reason => [("reason", .string reason)]

def Command.toJson (c : Command) : Json :=
  variant c.kind.name (("transaction_id", .string c.transfer) :: c.operation.fields)

/-! ## Reading -/

def Authorization.ofNode? (keyed : Bool) (n : Node) : Option Authorization := do
  let (name, data) ← n.variant?
  if name = "Approved" then
    let [code] ← data.variantSlots? keyed ["authorization_code"] | none
    return .approved (← code.required Node.text?)
  else if name = "Declined" then
    let [code, reason] ← data.variantSlots? keyed ["code", "reason"] | none
    return .declined (← code.required Node.text?) (← reason.required Node.text?)
  else none

def Settlement.ofNode? (keyed : Bool) (n : Node) : Option Settlement := do
  let (name, data) ← n.variant?
  if name = "Settled" then
    let [reference] ← data.variantSlots? keyed ["settlement_reference"] | none
    return .settled (← reference.required Node.text?)
  else if name = "Rejected" then
    let [code, reason] ← data.variantSlots? keyed ["code", "reason"] | none
    return .rejected (← code.required Node.text?) (← reason.required Node.text?)
  else none

/-- The fields of each kind of command behind the name of the transfer. -/
def CommandKind.fieldNames : CommandKind → List String
  | initiate => ["amount", "currency", "source_account", "destination_account"]
  | authorize => ["outcome"]
  | settle => ["outcome"]
  | reverse => ["reason"]
  | dispute => ["reason"]

/-- An operation of a given kind from its arguments. -/
def Operation.ofSlots? (keyed : Bool) (kind : CommandKind) (slots : List Slot) :
    Option Operation :=
  match kind, slots with
  | .initiate, [amount, currency, source, destination] => do
    return .initiate ⟨← amount.required Node.amount?, ← currency.required Node.text?,
      ← source.required Node.text?, ← destination.required Node.text?⟩
  | .authorize, [outcome] => (outcome.required (Authorization.ofNode? keyed)).map .authorize
  | .settle, [outcome] => (outcome.required (Settlement.ofNode? keyed)).map .settle
  | .reverse, [reason] => (reason.required Node.text?).map .reverse
  | .dispute, [reason] => (reason.required Node.text?).map .dispute
  | _, _ => none

def Command.ofNode? (keyed : Bool) (n : Node) : Option Command := do
  let (name, data) ← n.variant?
  let kind ← CommandKind.ofName? name
  let slots ← data.variantSlots? keyed ("transaction_id" :: kind.fieldNames)
  match slots with
  | transfer :: arguments =>
    return ⟨← transfer.required Node.text?, ← Operation.ofSlots? keyed kind arguments⟩
  | [] => none

end TransferLedger
