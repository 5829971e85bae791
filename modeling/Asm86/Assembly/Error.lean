/-
# Asm86.Assembly.Error -- what can stop a pass

The faults of the layers below, and those that only show when names get values: ranges,
branch distances, and disagreement between the two passes.  A `LineError` ties a fault
to the source line that caused it; the line is zero when no line did.
-/
import Asm86.Encoding.Plan
import Asm86.Output.Sink
import Asm86.Source.Error
import Asm86.Symbols.Block

namespace Asm86.Assembly

open Asm86.Text
open Asm86.Machine
open Asm86.Encoding
open Asm86.Source
open Asm86.Symbols
open Asm86.Output

set_option autoImplicit false

inductive AsmError where
  | parse (e : ParseError)
  | encode (e : EncodeError)
  | symbol (e : SymbolError)
  | transfer (e : TransferError)
  | sink (fault : SinkFault)
  | unsupportedOperands (op : Operation)
  | unmatchedEnds (name : String)
  | undefinedLabel (name : String)
  | immediateOutOfRange (value : Int)
  | branchOutOfRange (target : String) (distance : Int)
  | phaseMismatch (segment : String) (first second : UInt16)
  | labelDrift (label : String) (first second : UInt16)
  deriving DecidableEq, Repr

def AsmError.message : AsmError → String
  | .parse e => e.message
  | .encode e => e.message
  | .symbol e => e.message
  | .transfer e => e.message
  | .sink fault => "output error: " ++ fault.message
  | .unsupportedOperands op => "syntax error: unsupported operands for " ++ op.name
  | .unmatchedEnds name => s!"syntax error: {name} ENDS without matching SEGMENT"
  | .undefinedLabel name => s!"undefined label {name}"
  | .immediateOutOfRange value => s!"immediate {value} out of range"
  | .branchOutOfRange target distance => s!"branch to {target} out of range ({distance})"
  | .phaseMismatch segment first second =>
      s!"segment {segment} is {hexLower 4 second.toNat} bytes in pass two" ++
        s!" but {hexLower 4 first.toNat} in pass one"
  | .labelDrift label first second =>
      s!"label {label} moved from {hexLower 4 first.toNat} to {hexLower 4 second.toNat}" ++
        " between passes"

structure LineError where
  line : Nat
  error : AsmError
  deriving DecidableEq, Repr

def LineError.message (e : LineError) : String := s!"line {e.line}: {e.error.message}"

end Asm86.Assembly
