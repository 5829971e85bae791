/-
# Asm86.Source.Error -- why a source line cannot be read

One constructor for each cause, with the text or register that it names.  All but an
unknown mnemonic are reported as syntax errors.
-/
import Asm86.Machine.Register

namespace Asm86.Source

open Asm86.Machine

set_option autoImplicit false

inductive ParseError where
  | badExpression (text : String)
  | constantOverflow (term : String)
  | badTerm (term : String)
  | badOverride (name : String)
  | subtractedRegister (r : Register)
  | twoBases
  | twoIndexes
  | notAddressing (r : Register)
  | sizeWithoutMemory (text : String)
  | noData
  | badDupCount (item : String)
  | badDup (item : String)
  | badLabel (name : String)
  | unknownMnemonic (name : String)
  deriving DecidableEq, Repr

def ParseError.message : ParseError → String
  | .badExpression text => "syntax error: bad expression " ++ text
  | .constantOverflow term => "syntax error: constant overflow at " ++ term
  | .badTerm term => "syntax error: bad term " ++ term
  | .badOverride name => "syntax error: bad segment override " ++ name
  | .subtractedRegister r => "syntax error: cannot subtract register " ++ r.name
  | .twoBases => "syntax error: two base registers"
  | .twoIndexes => "syntax error: two index registers"
  | .notAddressing r => "syntax error: " ++ r.name ++ " cannot address memory"
  | .sizeWithoutMemory text => "syntax error: size prefix on non-memory operand " ++ text
  | .noData => "syntax error: data directive without values"
  | .badDupCount item => "syntax error: bad DUP count in " ++ item
  | .badDup item => "syntax error: bad DUP in " ++ item
  | .badLabel name => "syntax error: bad label " ++ name
  | .unknownMnemonic name => "unknown mnemonic " ++ name

end Asm86.Source
