import TransferLedger.Text.Shown

/-!
# Quoted text

A text in double quotes and a character in single quotes, as error messages show them.  Inside, the
quote in use and the backslash are escaped, the common control characters have short forms, and any
other character that cannot be shown as it is stands as its code point in braces.
-/

set_option autoImplicit false

namespace TransferLedger.Text

/-- A character by its code point: a backslash, the letter u, and hexadecimal digits in braces. -/
def codePointEscape (c : Char) : List Char :=
  '\\' :: 'u' :: '\x7b' :: Nat.toDigits 16 c.toNat ++ ['\x7d']

/-- What stands for a character between two of the given quotes. -/
def quotedChar (quote c : Char) : List Char :=
  if c == '\x00' then ['\\', '0']
  else if c == '\t' then ['\\', 't']
  else if c == '\r' then ['\\', 'r']
  else if c == '\n' then ['\\', 'n']
  else if c == '\\' || c == quote then ['\\', c]
  else if isShown c then [c]
  else codePointEscape c

def quoted (s : String) : String :=
  String.ofList ('"' :: s.toList.flatMap (quotedChar '"') ++ ['"'])

def quotedSingle (c : Char) : String :=
  let mark := Char.ofNat 39
  String.ofList (mark :: quotedChar mark c ++ [mark])

end TransferLedger.Text
