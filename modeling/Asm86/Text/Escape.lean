/-
# Asm86.Text.Escape -- texts in double quotes, with escapes

Two forms: the one in which messages show a name, and the one of JSON strings.  Both
write a quote and a backslash after a backslash and have short escapes for the common
control characters.  They differ in the other characters: messages write each one that is
not printable as `\u` with the code in braces, JSON only the control characters below the
space, with four digits.
-/
import Asm86.Text.Hex
import Asm86.Text.Printable

namespace Asm86.Text

set_option autoImplicit false

/-- A character of a name in a message. -/
def shownChar (c : Char) : List Char :=
  let n := c.toNat
  if c == '\x22' then ['\\', '\x22']
  else if c == '\\' then ['\\', '\\']
  else if c == '\t' then ['\\', 't']
  else if c == '\n' then ['\\', 'n']
  else if c == '\r' then ['\\', 'r']
  else if n == 0 then ['\\', '0']
  else if isPrintable c then [c]
  else ['\\', 'u', '\x7b'] ++ Nat.toDigits 16 n ++ ['\x7d']

/-- A name as messages show it. -/
def shown (name : String) : String :=
  String.ofList ('\x22' :: name.toList.flatMap shownChar ++ ['\x22'])

/-- A character of a JSON string. -/
def jsonChar (c : Char) : List Char :=
  let n := c.toNat
  if c == '\x22' then ['\\', '\x22']
  else if c == '\\' then ['\\', '\\']
  else if n == 8 then ['\\', 'b']
  else if n == 12 then ['\\', 'f']
  else if c == '\t' then ['\\', 't']
  else if c == '\n' then ['\\', 'n']
  else if c == '\r' then ['\\', 'r']
  else if n < 32 then ['\\', 'u'] ++ hexDigits 4 n
  else [c]

def jsonString (s : String) : String :=
  String.ofList ('\x22' :: s.toList.flatMap jsonChar ++ ['\x22'])

end Asm86.Text
