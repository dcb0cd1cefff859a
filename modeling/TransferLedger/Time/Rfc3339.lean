import TransferLedger.Text.Blank
import TransferLedger.Text.Numeral
import TransferLedger.Time.Instant

/-!
# Timestamps

The text of an instant in the form of RFC 3339, always in universal time.  A fraction of a second
is written either in full, with nine digits, or with the fewest groups of three that lose nothing;
a year outside 0 to 9999 carries its sign.

Reading is more generous than writing.  Blanks may stand around the parts, one digit is enough
where two are written, the letter between date and time may be lower case or a space, the offset
from universal time may be any of less than a day, and digits after the ninth of a fraction are
passed over.
-/

set_option autoImplicit false

namespace TransferLedger.Instant

open TransferLedger.Text Calendar

/-! ## Writing -/

/-- The year: four digits, or a sign and at least four. -/
def yearText (year : Int) : List Char :=
  if 0 ≤ year ∧ year ≤ 9999 then padded 4 year.toNat
  else (if year < 0 then '-' else '+') :: padded 4 year.natAbs

/-- Nine digits of a fraction of a second. -/
def fullFraction (nanos : Nat) : List Char :=
  '.' :: padded 9 nanos

/-- As many groups of three digits as are needed, none for a whole second. -/
def shortFraction (nanos : Nat) : List Char :=
  if nanos = 0 then []
  else if nanos % 1000000 = 0 then '.' :: padded 3 (nanos / 1000000)
  else if nanos % 1000 = 0 then '.' :: padded 6 (nanos / 1000)
  else '.' :: padded 9 nanos

/-- The timestamp with a given way of writing the fraction. -/
def timestamp (fraction : Nat → List Char) (i : Instant) : List Char :=
  yearText i.date.year ++ '-' :: padded 2 i.date.month ++ '-' :: padded 2 i.date.day ++
    'T' :: padded 2 i.time.hour ++ ':' :: padded 2 i.time.minute ++
    ':' :: padded 2 i.time.second ++ fraction i.time.nanos ++ ['Z']

def text (i : Instant) : String :=
  String.ofList (i.timestamp shortFraction)

/-- The timestamp as it enters a hash: its length depends on the year alone. -/
def fullText (i : Instant) : String :=
  String.ofList (i.timestamp fullFraction)

/-! ## Reading -/

/-- A number of at least one and at most so many digits. -/
def readNumber? (most : Nat) (cs : List Char) : Option (Nat × List Char) :=
  match takeDigits most cs with
  | ([], _) => none
  | (ds, rest) => some (numeralValue ds, rest)

/-- A given character, after blanks. -/
def expect? (c : Char) (cs : List Char) : Option (List Char) :=
  match skipBlanks cs with
  | d :: rest => if d = c then some rest else none
  | [] => none

/-- A year: up to four digits, or a sign and any number of them. -/
def readYear? (cs : List Char) : Option (Int × List Char) :=
  match cs with
  | '-' :: rest => (readNumber? rest.length rest).map fun (n, r) => (-(n : Int), r)
  | '+' :: rest => (readNumber? rest.length rest).map fun (n, r) => ((n : Int), r)
  | _ => (readNumber? 4 cs).map fun (n, r) => ((n : Int), r)

def readDate? (cs : List Char) : Option (Date × List Char) := do
  let (year, cs) ← readYear? (skipBlanks cs)
  let cs ← expect? '-' cs
  let (month, cs) ← readNumber? 2 (skipBlanks cs)
  let cs ← expect? '-' cs
  let (day, cs) ← readNumber? 2 (skipBlanks cs)
  return (⟨year, month, day⟩, cs)

/-- A fraction of a second in nanoseconds, zero if there is none. -/
def readFraction? (cs : List Char) : Option (Nat × List Char) :=
  match cs with
  | '.' :: rest =>
    match takeDigits 9 rest with
    | ([], _) => none
    | (ds, rest) => some (numeralValue ds * Nat.pow 10 (9 - ds.length), rest.dropWhile Char.isDigit)
  | _ => some (0, cs)

def readTime? (cs : List Char) : Option (TimeOfDay × List Char) := do
  let (hour, cs) ← readNumber? 2 (skipBlanks cs)
  let cs ← expect? ':' cs
  let (minute, cs) ← readNumber? 2 (skipBlanks cs)
  let cs ← expect? ':' cs
  let (second, cs) ← readNumber? 2 (skipBlanks cs)
  let (nanos, cs) ← readFraction? cs
  return (⟨hour, minute, second, nanos⟩, cs)

/-- Two digits in a row. -/
def readPair? : List Char → Option (Nat × List Char)
  | a :: b :: rest => do
    let tens ← digitValue? a
    let ones ← digitValue? b
    return (tens * 10 + ones, rest)
  | _ => none

/-- Hours and minutes of an offset, with colons or blanks between them if any. -/
def readOffsetSize? (cs : List Char) : Option (Int × List Char) := do
  let (hours, cs) ← readPair? cs
  let (minutes, cs) ← readPair? (cs.dropWhile fun c => c == ':' || isBlank c)
  if minutes ≤ 59 ∧ hours ≤ 23 then return ((hours * 60 + minutes : Nat), cs) else none

/-- Minutes by which the clock is ahead of universal time.  The minus may be the hyphen or the
mathematical sign. -/
def readOffset? (cs : List Char) : Option (Int × List Char) :=
  if (cs.take 3).map Char.toUpper = ['U', 'T', 'C'] then some (0, cs.drop 3)
  else match cs with
  | 'Z' :: rest | 'z' :: rest => some (0, rest)
  | '+' :: rest => readOffsetSize? rest
  | '-' :: rest | '\u2212' :: rest => (readOffsetSize? rest).map fun (n, r) => (-n, r)
  | _ => none

/-- The instant that a timestamp names. -/
def ofTimestamp? (cs : List Char) : Option Instant := do
  let (date, cs) ← readDate? cs
  let cs ← match cs with
    | 'T' :: rest | 't' :: rest | ' ' :: rest => some rest
    | _ => none
  let (time, cs) ← readTime? cs
  let (ahead, cs) ← readOffset? (skipBlanks cs)
  if skipBlanks cs = [] then ofLocal? date time ahead else none

def ofText? (s : String) : Option Instant :=
  ofTimestamp? s.toList

end TransferLedger.Instant
