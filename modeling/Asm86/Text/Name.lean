/-
# Asm86.Text.Name -- name characters, identifiers and keywords

Names are made of ASCII letters and digits and the marks `_ . @ $ ?`; an
identifier does not start with a digit.  Keywords, registers and mnemonics are
compared without regard to ASCII case; every other character counts as it is.
-/

namespace Asm86.Text

set_option autoImplicit false

/-- The marks a name may hold besides letters and digits. -/
def isNameMark (c : Char) : Bool :=
  c == '_' || c == '.' || c == '@' || c == '$' || c == '?'

def isNameChar (c : Char) : Bool := c.isAlphanum || isNameMark c

/-- A nonempty run of name characters that does not start with a digit. -/
def isIdentifier : List Char → Bool
  | [] => false
  | c :: rest => (c.isAlpha || isNameMark c) && rest.all isNameChar

def upper (s : List Char) : List Char := s.map Char.toUpper

def lower (s : List Char) : List Char := s.map Char.toLower

/-- `word` spells the upper-case `keyword`, in either case. -/
def isKeyword (keyword : String) (word : List Char) : Bool := upper word == keyword.toList

end Asm86.Text
