import TransferLedger.Chain.Record
import TransferLedger.Transfer.Status

/-!
# Facts about a transfer

What the stream of a transfer is made of.  Each fact records one move of the lifecycle and carries
its own time.  Written down, a fact is an object with its kind under `type` and its fields under
`data`.

The two may be read in either order.  If the data comes first it has to be kept until the kind is
known, so all of it has to denote something, and the stage of a failure may then be given as an
empty object instead of null.  An array has the kind before the data, and there the kind is a plain
text.
-/

set_option autoImplicit false

namespace TransferLedger

open Json

/-- How much is to be moved, and between whom. -/
structure Terms where
  /-- In minor units of the currency. -/
  amount : UInt64
  currency : String
  /-- The account that is debited. -/
  source : String
  /-- The account that is credited. -/
  destination : String
  deriving DecidableEq

/-- The step at which a transfer has failed. -/
inductive Stage where
  | authorization
  | settlement
  deriving DecidableEq, Repr

/-- A fact about a transfer. -/
inductive Event where
  | initiated (id : String) (terms : Terms) (time : Instant)
  | authorized (code : String) (time : Instant)
  | failed (stage : Stage) (code reason : String) (time : Instant)
  | completed (reference : String) (time : Instant)
  | reversed (reason : String) (time : Instant)
  | disputed (reason : String) (time : Instant)
  deriving DecidableEq

namespace Stage

def name : Stage → String
  | authorization => "Authorization"
  | settlement => "Settlement"

def ofName? (name : String) : Option Stage :=
  [authorization, settlement].find? fun s => s.name == name

theorem ofName?_name (s : Stage) : ofName? s.name = some s := by
  cases s <;> decide

end Stage

namespace Event

/-- The kind of a fact, which is stored beside it. -/
def kind : Event → String
  | initiated .. => "TransactionInitiated"
  | authorized .. => "TransactionAuthorized"
  | failed .. => "TransactionFailed"
  | completed .. => "TransactionCompleted"
  | reversed .. => "TransactionReversed"
  | disputed .. => "TransactionDisputed"

def move : Event → Move
  | initiated .. => .initiate
  | authorized .. => .authorize
  | failed .authorization .. => .failAuthorization
  | failed .settlement .. => .failSettlement
  | completed .. => .complete
  | reversed .. => .reverse
  | disputed .. => .dispute

end Event

/-! ## Writing -/

namespace Event

def data : Event → List (String × Json)
  | initiated id terms time =>
    [("transaction_id", .string id), ("amount", .ofWord terms.amount),
      ("currency", .string terms.currency), ("source_account", .string terms.source),
      ("destination_account", .string terms.destination), ("initiated_at", ofInstant time)]
  | authorized code time =>
    [("authorization_code", .string code), ("authorized_at", ofInstant time)]
  | failed stage code reason time =>
    [("stage", .string stage.name), ("code", .string code), ("reason", .string reason),
      ("failed_at", ofInstant time)]
  | completed reference time =>
    [("settlement_reference", .string reference), ("completed_at", ofInstant time)]
  | reversed reason time => [("reason", .string reason), ("reversed_at", ofInstant time)]
  | disputed reason time => [("reason", .string reason), ("disputed_at", ofInstant time)]

def toJson (e : Event) : Json :=
  .object [("type", .string e.kind), ("data", .object e.data)]

def text (e : Event) : String :=
  e.toJson.text

/-- A fact on its way into a stream, recorded at a given time. -/
def entry (now : Instant) (e : Event) : Entry :=
  ⟨e.kind, e.text, now⟩

end Event

/-! ## Reading -/

namespace Event

/-- The fields of each kind of fact. -/
def fieldNames? (kind : String) : Option (List String) :=
  match kind with
  | "TransactionInitiated" =>
    some ["transaction_id", "amount", "currency", "source_account", "destination_account",
      "initiated_at"]
  | "TransactionAuthorized" => some ["authorization_code", "authorized_at"]
  | "TransactionFailed" => some ["stage", "code", "reason", "failed_at"]
  | "TransactionCompleted" => some ["settlement_reference", "completed_at"]
  | "TransactionReversed" => some ["reason", "reversed_at"]
  | "TransactionDisputed" => some ["reason", "disputed_at"]
  | _ => none

/-- A fact of a given kind from its fields, with a given way of reading names. -/
def ofSlots? (nameOf : Node → Option String) (kind : String) (slots : List Slot) : Option Event :=
  match kind, slots with
  | "TransactionInitiated", [id, amount, currency, source, destination, time] => do
    return .initiated (← id.required Node.text?)
      ⟨← amount.required Node.amount?, ← currency.required Node.text?,
        ← source.required Node.text?, ← destination.required Node.text?⟩
      (← time.required Node.instant?)
  | "TransactionAuthorized", [code, time] => do
    return .authorized (← code.required Node.text?) (← time.required Node.instant?)
  | "TransactionFailed", [stage, code, reason, time] => do
    return .failed (← stage.required fun n => (nameOf n).bind Stage.ofName?)
      (← code.required Node.text?) (← reason.required Node.text?) (← time.required Node.instant?)
  | "TransactionCompleted", [reference, time] => do
    return .completed (← reference.required Node.text?) (← time.required Node.instant?)
  | "TransactionReversed", [reason, time] => do
    return .reversed (← reason.required Node.text?) (← time.required Node.instant?)
  | "TransactionDisputed", [reason, time] => do
    return .disputed (← reason.required Node.text?) (← time.required Node.instant?)
  | _, _ => none

/-- A fact from its kind and its data. -/
def ofParts? (nameOf : Node → Option String) (kind : String) (data : Node) : Option Event := do
  let names ← fieldNames? kind
  let slots ← data.slots? names
  ofSlots? nameOf kind slots

def ofNode? : Node → Option Event
  | .array [kind, data] => kind.text?.bind fun kind => ofParts? Node.name? kind data
  | .object fields =>
    match fields.filter fun f => f.1 == "type" || f.1 == "data" with
    | [(first, a), (second, b)] =>
      if first = "type" ∧ second = "data" then
        a.name?.bind fun kind => ofParts? Node.name? kind b
      else if first = "data" ∧ second = "type" ∧ a.plain?.isSome then
        b.name?.bind fun kind => ofParts? Node.looseName? kind a
      else none
    | _ => none
  | _ => none

def ofText? (s : String) : Option Event :=
  (read? s).bind ofNode?

end Event

end TransferLedger
