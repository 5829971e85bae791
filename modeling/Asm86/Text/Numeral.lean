/-
# Asm86.Text.Numeral -- number literals

A literal is a quoted ASCII character, standing for its code, or a numeral that
starts with a digit: `0x` and hexadecimal digits, hexadecimal digits and `h`, binary
digits and `b`, or decimal digits, tried in this order and in either case.  So
`0bh` is eleven and `0b` is zero.

Digits may be preceded by one sign.  Only after `0x` can there be one, since a
numeral starts with a digit: `0x-5` is minus five.  A numeral without digits or
outside signed 64 bits is no literal.
-/
import Asm86.Range
import Asm86.Text.Blank
import Asm86.Text.Name
import Asm86.Text.Quoted

namespace Asm86.Text

set_option autoImplicit false

/-- The value of a digit: decimal digits, then the letters in either case. -/
def digitValue? (c : Char) : Option Nat :=
  let n := c.toNat
  if 48 ≤ n ∧ n ≤ 57 then some (n - 48)
  else if 97 ≤ n ∧ n ≤ 122 then some (n - 87)
  else if 65 ≤ n ∧ n ≤ 90 then some (n - 55)
  else none

/-- The number that `acc` followed by the given digits stands for. -/
def readDigits (radix acc : Nat) : List Char → Option Nat
  | [] => some acc
  | c :: rest =>
      match digitValue? c with
      | some d => if d < radix then readDigits radix (acc * radix + d) rest else none
      | none => none

/-- A run of at least one digit. -/
def readNat? (radix : Nat) (s : List Char) : Option Nat :=
  if s.isEmpty then none else readDigits radix 0 s

/-- Digits after at most one sign, inside signed 64 bits. -/
def readSigned? (radix : Nat) : List Char → Option Int
  | '+' :: digits => (readNat? radix digits).bind fun n => Range.checked64 n
  | '-' :: digits => (readNat? radix digits).bind fun n => Range.checked64 (-(n : Int))
  | digits => (readNat? radix digits).bind fun n => Range.checked64 n

/-- The code of a quoted ASCII character. -/
def quotedCode? : List Char → Option Int
  | [q, c, q'] => if isQuote q && q == q' && c.toNat < 128 then some (c.toNat : Int) else none
  | _ => none

/-- A numeral in lower case whose first character is a digit. -/
def readNumeral? (s : List Char) : Option Int :=
  match s with
  | '0' :: 'x' :: digits => readSigned? 16 digits
  | _ =>
      match s.getLast? with
      | some 'h' => readSigned? 16 s.dropLast
      | some 'b' => readSigned? 2 s.dropLast
      | _ => readSigned? 10 s

/-- The value of a number literal, blanks around it aside. -/
def literal? (s : List Char) : Option Int :=
  let body := trim s
  match quotedCode? body with
  | some code => some code
  | none =>
      match body with
      | c :: _ => if c.isDigit then readNumeral? (lower body) else none
      | [] => none

end Asm86.Text
