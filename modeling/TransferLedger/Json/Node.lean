import TransferLedger.Json.Token

/-!
# Reading JSON

The second stage of reading: tokens become a tree.  It keeps what a value forgets, because readers
of typed data look at it: the order of fields and fields with the same key.  It also keeps a place
for what is well-formed and yet denotes nothing, a number out of range, a text with half of a
surrogate pair, an object with such a key, or a container that lies deeper than 127 levels.  A
reader that needs the place fails; one that passes it over does not.

The parser is a stack of the containers that are still open.  Each token is one step, so it ends
with the tokens, and a container's level is the height of the stack.
-/

set_option autoImplicit false

namespace TransferLedger.Json

/-- A document as it is read. -/
inductive Node where
  | null
  | bool (b : Bool)
  | number (n : Number)
  | string (s : String)
  | array (items : List Node)
  | object (fields : List (String × Node))
  /-- Well-formed text that denotes nothing. -/
  | unreadable

instance : Inhabited Node := ⟨.null⟩

/-! ## Nodes and values -/

mutual

def toNode : Json → Node
  | .null => .null
  | .bool b => .bool b
  | .number n => .number n
  | .string s => .string s
  | .array items => .array (toNodes items)
  | .object fields => .object (toFields fields)

def toNodes : List Json → List Node
  | [] => []
  | v :: rest => toNode v :: toNodes rest

def toFields : List (String × Json) → List (String × Node)
  | [] => []
  | (k, v) :: rest => (k, toNode v) :: toFields rest

end

mutual

/-- The document as a value with the fields as they stand, if all of it denotes something. -/
def Node.plain? : Node → Option Json
  | .null => some .null
  | .bool b => some (.bool b)
  | .number n => some (.number n)
  | .string s => some (.string s)
  | .array items => (Node.plainItems? items).map .array
  | .object fields => (Node.plainFields? fields).map .object
  | .unreadable => none

def Node.plainItems? : List Node → Option (List Json)
  | [] => some []
  | n :: rest =>
    match n.plain?, Node.plainItems? rest with
    | some v, some vs => some (v :: vs)
    | _, _ => none

def Node.plainFields? : List (String × Node) → Option (List (String × Json))
  | [] => some []
  | (k, n) :: rest =>
    match n.plain?, Node.plainFields? rest with
    | some v, some vs => some ((k, v) :: vs)
    | _, _ => none

end

/-- The value that the document denotes: in canonical form, of fields with the same key the last. -/
def Node.value? (n : Node) : Option Json :=
  n.plain?.map canonical

/-! ## The stack -/

/-- The greatest number of containers around a place that is looked at, its own included. -/
def greatestDepth : Nat := 127

/-- A container that is still open, with what it holds so far, the last first. -/
inductive Open where
  | array (done : List Node)
  /-- `bad` tells that some key denotes nothing. -/
  | object (done : List (String × Node)) (key : String) (bad : Bool)

/-- What may come next. -/
inductive Expect where
  | value
  /-- A value, or the end of an array that has just begun. -/
  | firstItem
  /-- A key, or the end of an object that has just begun. -/
  | firstKey
  | key
  | colon
  /-- A comma, or the end of the innermost container. -/
  | next
  | nothing
  deriving DecidableEq

/-- Where the parser is. -/
structure Parsing where
  opened : List Open
  expect : Expect
  result : Node

def Parsing.start : Parsing :=
  ⟨[], .value, .null⟩

/-- A value is complete: it goes into the innermost container, or it is the whole document. -/
def Parsing.put (n : Node) : List Open → Parsing
  | [] => ⟨[], .nothing, n⟩
  | .array done :: rest => ⟨.array (n :: done) :: rest, .next, .null⟩
  | .object done key bad :: rest => ⟨.object ((key, n) :: done) "" bad :: rest, .next, .null⟩

/-- What a container becomes when it closes. -/
def Open.close (depth : Nat) : Open → Node
  | .array done => if depth ≤ greatestDepth then .array done.reverse else .unreadable
  | .object done _ bad =>
    if depth ≤ greatestDepth ∧ bad = false then .object done.reverse else .unreadable

/-- A token that is a value by itself. -/
def Token.scalar? : Token → Option Node
  | .null => some .null
  | .bool b => some (.bool b)
  | .number n => some ((n.map Node.number).getD .unreadable)
  | .string s => some ((s.map Node.string).getD .unreadable)
  | _ => none

/-- A token where a value has to come. -/
def Parsing.beginValue? (opened : List Open) (t : Token) : Option Parsing :=
  match t with
  | .openBracket => some ⟨.array [] :: opened, .firstItem, .null⟩
  | .openBrace => some ⟨.object [] "" false :: opened, .firstKey, .null⟩
  | t => t.scalar?.map fun n => .put n opened

/-- A token where a key has to come. -/
def Parsing.beginField? (opened : List Open) (t : Token) : Option Parsing :=
  match opened, t with
  | .object done _ bad :: rest, .string (some k) => some ⟨.object done k bad :: rest, .colon, .null⟩
  | .object done _ _ :: rest, .string none => some ⟨.object done "" true :: rest, .colon, .null⟩
  | _, _ => none

/-- The innermost container ends. -/
def Parsing.close? (opened : List Open) (t : Token) : Option Parsing :=
  match opened, t with
  | .array done :: rest, .closeBracket =>
    some (.put (Open.close (rest.length + 1) (.array done)) rest)
  | .object done key bad :: rest, .closeBrace =>
    some (.put (Open.close (rest.length + 1) (.object done key bad)) rest)
  | _, _ => none

def Parsing.step? (p : Parsing) (t : Token) : Option Parsing :=
  match p.expect with
  | .value => Parsing.beginValue? p.opened t
  | .firstItem =>
    if t = .closeBracket then Parsing.close? p.opened t else Parsing.beginValue? p.opened t
  | .firstKey =>
    if t = .closeBrace then Parsing.close? p.opened t else Parsing.beginField? p.opened t
  | .key => Parsing.beginField? p.opened t
  | .colon => if t = .colon then some { p with expect := .value } else none
  | .next =>
    if t = .comma then
      match p.opened with
      | .array _ :: _ => some { p with expect := .value }
      | .object _ _ _ :: _ => some { p with expect := .key }
      | [] => none
    else Parsing.close? p.opened t
  | .nothing => none

def Parsing.run? (p : Parsing) : List Token → Option Parsing
  | [] => some p
  | t :: rest =>
    match p.step? t with
    | none => none
    | some p => p.run? rest

/-- The document that a text is. -/
def parse? (cs : List Char) : Option Node :=
  match tokens? cs with
  | none => none
  | some ts =>
    match Parsing.start.run? ts with
    | some p => if p.expect = .nothing then some p.result else none
    | none => none

def read? (s : String) : Option Node :=
  parse? s.toList

end TransferLedger.Json
