import TransferLedger.Json.Value
import TransferLedger.Number.Shortest
import TransferLedger.Text.Numeral

/-!
# Writing JSON

The text of a value: no blanks, fields in the order they stand in, and every character as itself
but for the quote, the backslash and the control characters below the space.

A floating-point number is written with the fewest digits that read back as it.  It stands in
positional notation from `10 ^ -5` to below `10 ^ 16`, always with a point and a digit after it, and
in scientific notation outside, with the sign of the exponent always written.
-/

set_option autoImplicit false

namespace TransferLedger.Json

open TransferLedger.Text

/-! ## Numbers -/

/-- The digits of a decimal in positional notation, the point after the first `point` of them. -/
def positional (ds : List Char) (point : Int) : List Char :=
  if point ≤ 0 then '0' :: '.' :: List.replicate (-point).toNat '0' ++ ds
  else if point.toNat < ds.length then ds.take point.toNat ++ '.' :: ds.drop point.toNat
  else ds ++ List.replicate (point.toNat - ds.length) '0' ++ ['.', '0']

/-- The digits of a decimal in scientific notation. -/
def scientific (ds : List Char) (power : Int) : List Char :=
  let tail := ds.drop 1
  ds.take 1 ++ (if tail.isEmpty then [] else '.' :: tail) ++
    'e' :: (if power < 0 then '-' else '+') :: digits power.natAbs

/-- The text of a decimal that is not negative. -/
def decimalText (d : Decimal) : List Char :=
  if d.digits = 0 then ['0', '.', '0']
  else
    let ds := digits d.digits
    let point := d.exponent + ds.length
    if -5 < point ∧ point ≤ 16 then positional ds point else scientific ds (point - 1)

def Number.write : Number → List Char
  | .nat n => digits n
  | .neg n => '-' :: digits n
  | .float x => (if x.isNegative then ['-'] else []) ++ decimalText (Decimal.shortest x)

/-! ## Texts -/

def writeChar (c : Char) : List Char :=
  if c == '"' then ['\\', '"']
  else if c == '\\' then ['\\', '\\']
  else if 0x20 ≤ c.toNat then [c]
  else if c.toNat = 8 then ['\\', 'b']
  else if c.toNat = 9 then ['\\', 't']
  else if c.toNat = 10 then ['\\', 'n']
  else if c.toNat = 12 then ['\\', 'f']
  else if c.toNat = 13 then ['\\', 'r']
  else ['\\', 'u', '0', '0', Nat.digitChar (c.toNat / 16), Nat.digitChar (c.toNat % 16)]

def writeString (s : String) : List Char :=
  '"' :: s.toList.flatMap writeChar ++ ['"']

/-! ## Values -/

mutual

def write : Json → List Char
  | .null => ['n', 'u', 'l', 'l']
  | .bool true => ['t', 'r', 'u', 'e']
  | .bool false => ['f', 'a', 'l', 's', 'e']
  | .number n => n.write
  | .string s => writeString s
  | .array items => '[' :: writeItems items
  | .object fields => '\x7b' :: writeFields fields

/-- The items of an array and the bracket that closes it. -/
def writeItems : List Json → List Char
  | [] => [']']
  | v :: rest => write v ++ writeMoreItems rest

def writeMoreItems : List Json → List Char
  | [] => [']']
  | v :: rest => ',' :: (write v ++ writeMoreItems rest)

/-- The fields of an object and the brace that closes it. -/
def writeFields : List (String × Json) → List Char
  | [] => ['\x7d']
  | (k, v) :: rest => writeString k ++ ':' :: (write v ++ writeMoreFields rest)

def writeMoreFields : List (String × Json) → List Char
  | [] => ['\x7d']
  | (k, v) :: rest => ',' :: (writeString k ++ ':' :: (write v ++ writeMoreFields rest))

end

def text (v : Json) : String :=
  String.ofList v.write

end TransferLedger.Json
