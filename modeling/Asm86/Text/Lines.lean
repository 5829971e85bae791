/-
# Asm86.Text.Lines -- cutting a source into lines

A line ends at a line feed.  One carriage return just before the line feed belongs
to the line end; a carriage return anywhere else, also at the end of a last line
without a line feed, is a character of its line.  A line feed at the end of the text
starts no further line, so the empty text has no lines.
-/

namespace Asm86.Text

set_option autoImplicit false

/-- Put `c` in front of the first line. -/
def onFirstLine (c : Char) : List (List Char) → List (List Char)
  | [] => [[c]]
  | line :: rest => (c :: line) :: rest

/-- The lines of a text, without their line ends. -/
def lines : List Char → List (List Char)
  | [] => []
  | '\n' :: rest => [] :: lines rest
  | '\r' :: '\n' :: rest => [] :: lines rest
  | c :: rest => onFirstLine c (lines rest)

end Asm86.Text
