/-!
# Decimal numerals

Writing natural numbers in decimal, to a given width where a format asks for one, and reading them
back under a limit.  The reader takes digits from left to right and stops at the first problem, so
of two faults the one further left is reported; a value that runs over the limit before a stray
character is met counts as too large.
-/

set_option autoImplicit false

namespace TransferLedger.Text

/-- The greatest number of sixty-four bits. -/
def greatestWord : Nat := Nat.pow 2 64 - 1

/-- The greatest number of thirty-two bits. -/
def greatestShort : Nat := Nat.pow 2 32 - 1

/-- The decimal digits of a number, most significant first, without leading zeros. -/
def digits (n : Nat) : List Char :=
  Nat.toDigits 10 n

/-- The digits of a number, filled up with zeros on the left to at least `width` of them. -/
def padded (width n : Nat) : List Char :=
  List.replicate (width - (digits n).length) '0' ++ digits n

/-- The value of a digit character. -/
def digitValue? (c : Char) : Option Nat :=
  if c.isDigit then some (c.toNat - '0'.toNat) else none

/-- The longest run of digits at the start of a text, of at most so many digits, and the rest. -/
def takeDigits : Nat → List Char → List Char × List Char
  | most + 1, c :: cs =>
    if c.isDigit then (c :: (takeDigits most cs).1, (takeDigits most cs).2) else ([], c :: cs)
  | _, cs => ([], cs)

/-- The value of a run of digits. -/
def numeralValue (ds : List Char) : Nat :=
  Nat.ofDigitChars 10 ds 0

/-- Why a text is not a numeral. -/
inductive NumeralError where
  | empty
  /-- A character that is not a digit, or a sign with nothing after it. -/
  | invalidDigit
  | tooLarge
  deriving DecidableEq, Repr

def NumeralError.message : NumeralError → String
  | .empty => "cannot parse integer from empty string"
  | .invalidDigit => "invalid digit found in string"
  | .tooLarge => "number too large to fit in target type"

/-- Read further digits behind a value already read. -/
def readDigits (limit : Nat) : Nat → List Char → Except NumeralError Nat
  | value, [] => .ok value
  | value, c :: rest =>
    match digitValue? c with
    | none => .error .invalidDigit
    | some d => if value * 10 + d ≤ limit then readDigits limit (value * 10 + d) rest
        else .error .tooLarge

/-- Read a numeral of value at most `limit`.  A plus sign may stand in front of the digits. -/
def readNumeral (limit : Nat) : List Char → Except NumeralError Nat
  | [] => .error .empty
  | ['+'] => .error .invalidDigit
  | '+' :: rest => readDigits limit 0 rest
  | cs => readDigits limit 0 cs

theorem takeDigits_append (most : Nat) (cs : List Char) :
    (takeDigits most cs).1 ++ (takeDigits most cs).2 = cs := by
  fun_induction takeDigits most cs with
  | case1 most c cs _ ih => simp [ih]
  | case2 => rfl
  | case3 => rfl

end TransferLedger.Text
