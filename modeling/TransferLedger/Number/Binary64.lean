/-!
# Binary floating-point numbers

Numbers of sixty-four bits as data: the bits themselves, so that equality is decidable and tells
the two zeros apart.  A finite number is a whole number times a power of two, and that is all the
printing of it looks at.

A decimal is read with the precision of the arithmetic and no more: as many leading digits as fit
sixty-four bits are rounded to a number once, and this is multiplied or divided by a power of ten,
which rounds a second time.
-/

set_option autoImplicit false

namespace TransferLedger

/-- A floating-point number of sixty-four bits. -/
structure Binary64 where
  bits : UInt64
  deriving DecidableEq, Repr

namespace Binary64

/-- The number that the arithmetic works with. -/
def ofFloat (x : Float) : Binary64 :=
  ⟨x.toBits⟩

/-- The number is below zero, or the negative zero. -/
def isNegative (x : Binary64) : Bool :=
  Nat.pow 2 63 ≤ x.bits.toNat

def neg (x : Binary64) : Binary64 :=
  ⟨x.bits ^^^ 0x8000000000000000⟩

/-- The eleven bits of the exponent. -/
def exponentBits (x : Binary64) : Nat :=
  x.bits.toNat / Nat.pow 2 52 % Nat.pow 2 11

/-- The fifty-two bits of the fraction. -/
def fractionBits (x : Binary64) : Nat :=
  x.bits.toNat % Nat.pow 2 52

/-- The whole number `m` of a finite number's size `m * 2 ^ q`. -/
def mantissa (x : Binary64) : Nat :=
  if x.exponentBits = 0 then x.fractionBits else Nat.pow 2 52 + x.fractionBits

/-- The exponent `q` of a finite number's size `m * 2 ^ q`. -/
def scale (x : Binary64) : Int :=
  (max 1 x.exponentBits : Nat) - 1075

/-- The next smaller number is only half as far away as the next larger one. -/
def isUneven (x : Binary64) : Bool :=
  x.fractionBits == 0 && 1 < x.exponentBits

/-! ## Reading decimals -/

def powerOfTen (n : Nat) : Float :=
  Float.ofScientific 1 false n

/-- Divide by a power of ten, in steps that each stay in range. -/
def divideByPower (x : Float) (n : Nat) : Float :=
  if n ≤ 308 then x / powerOfTen n
  else if x == 0 then x
  else divideByPower (x / powerOfTen 308) (n - 308)
termination_by n
decreasing_by omega

/-- A whole number of sixty-four bits times a power of ten, unless it is out of range. -/
def ofDecimal? (significand : UInt64) (exponent : Int) : Option Binary64 :=
  match exponent with
  | .ofNat n =>
    if n ≤ 308 then
      let x := significand.toFloat * powerOfTen n
      if x.isInf then none else some (ofFloat x)
    else if significand = 0 then some (ofFloat 0) else none
  | .negSucc n => some (ofFloat (divideByPower significand.toFloat (n + 1)))

end Binary64

end TransferLedger
