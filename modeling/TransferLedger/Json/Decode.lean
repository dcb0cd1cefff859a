import TransferLedger.Json.Node

/-!
# Typed data in JSON

How records and alternatives are found in a document.

A record is an object, or an array with its fields in their order.  In an object the fields may
come in any order and unknown ones are passed over, but none of its own may come twice; an
optional field that is absent counts as null.  An array has to hold all of them.  An alternative
without data is its name, or an object with the name as its only key and null behind it.
-/

set_option autoImplicit false

namespace TransferLedger.Json

open TransferLedger.Text

/-! ## Records -/

/-- What a document says about one field of a record. -/
inductive Slot where
  /-- The field has been given. -/
  | given (n : Node)
  /-- The record is an object without the field. -/
  | absent
  /-- The record is an array that ends before the field. -/
  | missing

/-- What an object says about a field, unless the field comes twice. -/
def fieldSlot? (fields : List (String × Node)) (name : String) : Option Slot :=
  match fields.filter (fun f => f.1 == name) with
  | [] => some .absent
  | [f] => some (.given f.2)
  | _ => none

/-- What an object says about each of several fields. -/
def fieldSlots? (fields : List (String × Node)) : List String → Option (List Slot)
  | [] => some []
  | name :: names =>
    match fieldSlot? fields name, fieldSlots? fields names with
    | some s, some ss => some (s :: ss)
    | _, _ => none

/-- What an array says about each of several fields, unless it holds more. -/
def itemSlots? : List String → List Node → Option (List Slot)
  | [], [] => some []
  | [], _ :: _ => none
  | _ :: names, [] => (itemSlots? names []).map (.missing :: ·)
  | _ :: names, n :: ns => (itemSlots? names ns).map (.given n :: ·)

/-- What a document says about the fields of a record. -/
def Node.slots? (names : List String) : Node → Option (List Slot)
  | .object fields => fieldSlots? fields names
  | .array items => itemSlots? names items
  | _ => none

/-- A field that has to be given. -/
def Slot.required {α : Type} (decode : Node → Option α) : Slot → Option α
  | .given n => decode n
  | .absent => none
  | .missing => none

/-- A field that may be null, or absent from an object. -/
def Slot.optional {α : Type} (decode : Node → Option α) : Slot → Option (Option α)
  | .given .null => some none
  | .given n => (decode n).map some
  | .absent => some none
  | .missing => none

/-- A field that has a default. -/
def Slot.orDefault {α : Type} (default : α) (decode : Node → Option α) : Slot → Option α
  | .given n => decode n
  | .absent => some default
  | .missing => some default

/-! ## Leaves -/

def Node.text? : Node → Option String
  | .string s => some s
  | _ => none

def Node.bool? : Node → Option Bool
  | .bool b => some b
  | _ => none

/-- A natural number up to a limit. -/
def Node.upTo? (limit : Nat) : Node → Option Nat
  | .number (.nat n) => if n ≤ limit then some n else none
  | _ => none

/-- A natural number of sixty-four bits. -/
def Node.word? (n : Node) : Option Nat :=
  n.upTo? greatestWord

/-- A natural number of thirty-two bits. -/
def Node.short? (n : Node) : Option Nat :=
  n.upTo? greatestShort

/-- A natural number of sixty-four bits as a word. -/
def Node.amount? (n : Node) : Option UInt64 :=
  n.word?.map UInt64.ofNat

def Node.items? : Node → Option (List Node)
  | .array items => some items
  | _ => none

/-! ## Alternatives -/

/-- The name of an alternative without data. -/
def Node.name? : Node → Option String
  | .string s => some s
  | .object [(s, .null)] => some s
  | _ => none

/-- The name of an alternative without data, where an empty object may stand for no data. -/
def Node.looseName? : Node → Option String
  | .object [(s, .object [])] => some s
  | n => n.name?

/-- The name of an alternative, and its data. -/
def Node.variant? : Node → Option (String × Node)
  | .object [f] => some f
  | _ => none

/-- The data of an alternative as fields, which have to be named if `keyed` holds. -/
def Node.variantSlots? (keyed : Bool) (names : List String) (n : Node) : Option (List Slot) :=
  match keyed, n with
  | true, .array _ => none
  | _, n => n.slots? names

end TransferLedger.Json
