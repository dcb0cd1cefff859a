import TransferLedger.Number.Binary64

/-!
# The shortest decimal

The decimal with the fewest digits among those that read back as a given floating-point number, and
of these the nearest to it.  The numbers that read back as `m * 2 ^ q` fill an interval around it,
which reaches half-way to the neighbours and includes its ends exactly if `m` is even.  For one
digit, two digits and so on the two multiples of the digit's unit next to the number are tried: if
any multiple of the unit lies in the interval, one of these two does.  Seventeen digits are always
enough.

All of it is exact arithmetic on natural numbers.
-/

set_option autoImplicit false

namespace TransferLedger

/-- The value `digits * 10 ^ exponent`. -/
structure Decimal where
  digits : Nat
  exponent : Int
  deriving DecidableEq, Repr

namespace Decimal

/-- Three fractions with one denominator: a number, and the ends of the interval around it. -/
structure Window where
  low : Nat
  value : Nat
  high : Nat
  denominator : Nat
  closed : Bool

/-- The numbers that are rounded to a given one, which is positive and finite. -/
def windowOf (x : Binary64) : Window :=
  let m := x.mantissa
  let low := if x.isUneven then 4 * m - 1 else 4 * m - 2
  let q := x.scale - 2
  let up := Nat.pow 2 q.toNat
  ⟨low * up, 4 * m * up, (4 * m + 2) * up, Nat.pow 2 (-q).toNat, m % 2 == 0⟩

/-- The window seen in units of `10 ^ unit`. -/
def Window.inUnits (w : Window) (unit : Int) : Window :=
  let up := Nat.pow 10 (-unit).toNat
  ⟨w.low * up, w.value * up, w.high * up, w.denominator * Nat.pow 10 unit.toNat, w.closed⟩

/-- A whole number of units lies in the interval. -/
def Window.holds (w : Window) (n : Nat) : Bool :=
  if w.closed then w.low ≤ n * w.denominator && n * w.denominator ≤ w.high
  else w.low < n * w.denominator && n * w.denominator < w.high

/-- The whole number of units next to the value, of the two around it, that lies in the interval. -/
def Window.nearest? (w : Window) : Option Nat :=
  let below := w.value / w.denominator
  let above := below + 1
  match w.holds below, w.holds above with
  | true, true =>
    let toBelow := w.value - below * w.denominator
    let toAbove := above * w.denominator - w.value
    if toBelow < toAbove then some below
    else if toAbove < toBelow then some above
    else some (if below % 2 = 0 then below else above)
  | true, false => some below
  | false, true => some above
  | false, false => none

/-- The number of times ten goes into a denominator before the value is at least one. -/
def leadingZeros (value denominator : Nat) : Nat → Nat
  | 0 => 0
  | tries + 1 =>
    if denominator ≤ value then 0 else leadingZeros (value * 10) denominator tries + 1

/-- The position of the leading digit: the value is at least `10 ^ (p - 1)` and below `10 ^ p`. -/
def Window.magnitude (w : Window) : Int :=
  if w.denominator ≤ w.value then ((Nat.toDigits 10 (w.value / w.denominator)).length : Int)
  else 1 - (leadingZeros w.value w.denominator 400 : Int)

/-- The first number of digits that has a hit, and the hit. -/
def Window.search (w : Window) (magnitude : Int) (count : Nat) : Nat → Option Decimal
  | 0 => none
  | tries + 1 =>
    let unit := magnitude - count
    match (w.inUnits unit).nearest? with
    | some n => some ⟨n, unit⟩
    | none => w.search magnitude (count + 1) tries

/-- The decimal without the zeros at its end. -/
def stripped (digits : Nat) (exponent : Int) : Nat → Decimal
  | 0 => ⟨digits, exponent⟩
  | tries + 1 =>
    if digits ≠ 0 ∧ digits % 10 = 0 then stripped (digits / 10) (exponent + 1) tries
    else ⟨digits, exponent⟩

/-- The shortest decimal of the size of a finite number. -/
def shortest (x : Binary64) : Decimal :=
  if x.mantissa = 0 then ⟨0, 0⟩
  else
    let w := windowOf x
    match w.search w.magnitude 1 17 with
    | some d => stripped d.digits d.exponent 20
    | none => ⟨0, 0⟩

end Decimal

end TransferLedger
