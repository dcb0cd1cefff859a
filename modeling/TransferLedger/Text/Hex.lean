/-!
# Hexadecimal text

Bytes written as two lowercase digits each, and the two ways of reading them: as many bytes as
there are, or exactly a given number of them.  Upper and lower case digits are read alike.  Of
several faults the length counts before the digits, and among digits the leftmost.
-/

set_option autoImplicit false

namespace TransferLedger.Text.Hex

/-- Why a text is not hexadecimal. -/
inductive HexError where
  /-- A digit without a partner. -/
  | oddLength
  /-- Not the number of digits that the wanted size takes. -/
  | wrongLength
  /-- A byte of the text that is no digit, and where it stands. -/
  | invalidDigit (byte : UInt8) (position : Nat)
  deriving DecidableEq, Repr

def digit (n : Nat) : Char :=
  n.digitChar

/-- The digits of a byte, high half first. -/
def ofByte (b : UInt8) : List Char :=
  [digit (b.toNat / 16), digit (b.toNat % 16)]

/-- Bytes as lowercase digits. -/
def encode (bs : List UInt8) : List Char :=
  bs.flatMap ofByte

/-- The value of a digit, read from the byte of the text it stands in. -/
def digitValue? (b : UInt8) : Option Nat :=
  let n := b.toNat
  if 48 ≤ n ∧ n ≤ 57 then some (n - 48)
  else if 97 ≤ n ∧ n ≤ 102 then some (n - 87)
  else if 65 ≤ n ∧ n ≤ 70 then some (n - 55)
  else none

/-- Read pairs of digits, the first of which stands at `position`. -/
def readPairs : Nat → List UInt8 → Except HexError (List UInt8)
  | position, hi :: lo :: rest =>
    match digitValue? hi, digitValue? lo with
    | some h, some l => (readPairs (position + 2) rest).map (UInt8.ofNat (h * 16 + l) :: ·)
    | none, _ => .error (.invalidDigit hi position)
    | some _, none => .error (.invalidDigit lo (position + 1))
  | _, [] => .ok []
  | _, [_] => .error .oddLength

/-- Read a text of any even length. -/
def decode (text : List UInt8) : Except HexError (List UInt8) :=
  if text.length % 2 = 1 then .error .oddLength else readPairs 0 text

/-- Read a text that has to hold exactly `size` bytes. -/
def decodeExactly (size : Nat) (text : List UInt8) : Except HexError (List UInt8) :=
  if text.length % 2 = 1 then .error .oddLength
  else if text.length / 2 ≠ size then .error .wrongLength
  else readPairs 0 text

theorem length_of_readPairs {position : Nat} {text : List UInt8} {bs : List UInt8}
    (h : readPairs position text = .ok bs) : bs.length = text.length / 2 := by
  fun_induction readPairs position text generalizing bs with
  | case1 position hi lo rest a b _ _ ih =>
    cases hr : readPairs (position + 2) rest with
    | error e => rw [hr] at h; simp [Except.map] at h
    | ok r =>
      rw [hr] at h
      simp only [Except.map, Except.ok.injEq] at h
      subst h
      simp only [List.length_cons, ih hr]
      omega
  | case2 => simp at h
  | case3 => simp at h
  | case4 => simp only [Except.ok.injEq] at h; subst h; rfl
  | case5 => simp at h

theorem length_of_decodeExactly {size : Nat} {text bs : List UInt8}
    (h : decodeExactly size text = .ok bs) : bs.length = size := by
  unfold decodeExactly at h
  split at h
  · simp at h
  · split at h
    · simp at h
    · next _ hs => rw [length_of_readPairs h]; simpa using hs

end TransferLedger.Text.Hex
