/-
# Asm86.Output.Listing -- what became of each statement

A row of a listing shows the source line, the place in its segment, the bytes and the
text of one statement.  The line number is filled up to five characters on the left, the
bytes to twenty on the right.
-/
import Asm86.Text.Hex

namespace Asm86.Output

open Asm86.Text

set_option autoImplicit false

structure Row where
  line : Nat
  segment : String
  offset : UInt16
  bytes : List UInt8
  text : String
  deriving DecidableEq, Repr

/-- Bytes as pairs of digits with blanks between them. -/
def hexBytes (bytes : List UInt8) : String :=
  String.intercalate " " (bytes.map fun b => hexUpper 2 b.toNat)

def Row.render (r : Row) : String :=
  let line := String.ofList (padLeft 5 ' ' (toString r.line).toList)
  let bytes := String.ofList (padRight 20 ' ' (hexBytes r.bytes).toList)
  line ++ "  " ++ r.segment ++ ":" ++ hexUpper 4 r.offset.toNat ++ "  " ++ bytes ++ "  " ++ r.text

/-- All rows, each ended by a line feed. -/
def renderListing (rows : List Row) : String :=
  String.join (rows.map fun r => r.render ++ "\n")

end Asm86.Output
