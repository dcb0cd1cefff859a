/-!
# Blank characters

The characters of Unicode's `White_Space` property, and the removal of runs of them at the ends of
a text.  A reason made of blanks only counts as no reason, and a value from the environment is read
without the blanks around it; both use this one set, so "blank" means the same everywhere.
-/

set_option autoImplicit false

namespace TransferLedger.Text

/-- The code points with the property `White_Space`. -/
def isBlank (c : Char) : Bool :=
  let n := c.toNat
  (9 ≤ n && n ≤ 13) || n == 0x20 || n == 0x85 || n == 0xA0 || n == 0x1680 ||
    (0x2000 ≤ n && n ≤ 0x200A) || n == 0x2028 || n == 0x2029 || n == 0x202F || n == 0x205F ||
    n == 0x3000

/-- A text without the blanks it starts with. -/
def skipBlanks (cs : List Char) : List Char :=
  cs.dropWhile isBlank

/-- A text without the blanks it starts and ends with. -/
def trim (cs : List Char) : List Char :=
  (skipBlanks (skipBlanks cs).reverse).reverse

def trimmed (s : String) : String :=
  String.ofList (trim s.toList)

/-- What is left after skipping does not start with a blank. -/
theorem skipBlanks_head {c : Char} {cs rest : List Char} (h : skipBlanks cs = c :: rest) :
    isBlank c = false := by
  induction cs with
  | nil => simp [skipBlanks] at h
  | cons d ds ih =>
    simp only [skipBlanks, List.dropWhile_cons] at h ih
    split at h
    · exact ih h
    · obtain ⟨rfl, -⟩ := List.cons.inj h
      simpa using ‹¬ isBlank d = true›

end TransferLedger.Text
