/-
# Asm86.Text.Quoted -- quoted stretches and comments

A quoted stretch opens at a quote character and closes at the next character equal
to the one that opened it; one that is never closed runs to the end of the text.
A scan carries the quote it is inside of, if any, and `quoteAfter` moves that state
past one character.  A comment runs from the first `;` outside quotes to the end of
the line.
-/

namespace Asm86.Text

set_option autoImplicit false

def isSingleQuote (c : Char) : Bool := c == '\x27'

/-- A single or a double quote. -/
def isQuote (c : Char) : Bool := c == '\x27' || c == '\x22'

/-- The quote a scan is inside of after `c`, when it was inside of `quote` before. -/
def quoteAfter (opens : Char → Bool) (quote : Option Char) (c : Char) : Option Char :=
  match quote with
  | none => if opens c then some c else none
  | some q => if c == q then none else some q

/-- The characters of a line before its comment, read from inside of `quote`. -/
def beforeComment (quote : Option Char) : List Char → List Char
  | [] => []
  | c :: rest =>
      if quote.isNone && c == ';' then []
      else c :: beforeComment (quoteAfter isQuote quote c) rest

/-- A line without its comment. -/
def stripComment (line : List Char) : List Char := beforeComment none line

end Asm86.Text
