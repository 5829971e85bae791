/-
# Asm86.Machine.Instruction -- one resolved instruction

An operation with its operands, and the text that a listing shows for it.
-/
import Asm86.Machine.Operation

namespace Asm86.Machine

set_option autoImplicit false

structure Instruction where
  op : Operation
  operands : Operands
  deriving DecidableEq, Repr

def Instruction.text (i : Instruction) : String :=
  match i.operands with
  | .none => i.op.name
  | operands => i.op.name ++ " " ++ operands.text

end Asm86.Machine
