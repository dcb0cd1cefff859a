import TransferLedger.Number.Binary64

/-!
# JSON values

The values that documents and stored states are made of.  Numbers keep apart what is read back
differently: natural numbers and negative integers of sixty-four bits, and floating-point numbers.

An object is a list of fields in the order in which they are written.  The state held by a snapshot
is in canonical form: the keys of each object strictly ascend in the order of their code points,
which is also that of their UTF-8 bytes.
-/

set_option autoImplicit false

namespace TransferLedger

inductive Json.Number where
  /-- A natural number below `2 ^ 64`. -/
  | nat (n : Nat)
  /-- The negative integer `-n`, with `1 ≤ n ≤ 2 ^ 63`. -/
  | neg (n : Nat)
  /-- Any other number, and the negative zero. -/
  | float (x : Binary64)
  deriving DecidableEq, Repr

inductive Json where
  | null
  | bool (b : Bool)
  | number (n : Json.Number)
  | string (s : String)
  | array (items : List Json)
  | object (fields : List (String × Json))

namespace Json

instance : Inhabited Json := ⟨.null⟩

def ofNat (n : Nat) : Json :=
  .number (.nat n)

def ofWord (w : UInt64) : Json :=
  .ofNat w.toNat

/-- An optional text, null for none. -/
def ofText? (s : Option String) : Json :=
  match s with
  | some s => .string s
  | none => .null

/-! ## Canonical form -/

/-- Put a field into fields in ascending order of their keys; a field with the same key goes. -/
def insertField (key : String) (v : Json) : List (String × Json) → List (String × Json)
  | [] => [(key, v)]
  | (k, w) :: rest =>
    if key < k then (key, v) :: (k, w) :: rest
    else if key = k then (k, v) :: rest
    else (k, w) :: insertField key v rest

/-- Fields in ascending order of their keys, each key with the last value given to it. -/
def sortFields (fields : List (String × Json)) : List (String × Json) :=
  fields.foldl (fun done f => insertField f.1 f.2 done) []

mutual

/-- The value with all its objects in canonical form. -/
def canonical : Json → Json
  | .array items => .array (canonicalItems items)
  | .object fields => .object (sortFields (canonicalFields fields))
  | .null => .null
  | .bool b => .bool b
  | .number n => .number n
  | .string s => .string s

def canonicalItems : List Json → List Json
  | [] => []
  | v :: rest => canonical v :: canonicalItems rest

def canonicalFields : List (String × Json) → List (String × Json)
  | [] => []
  | (k, v) :: rest => (k, canonical v) :: canonicalFields rest

end

end Json

end TransferLedger
