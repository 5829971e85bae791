/-
# Asm86.Machine.Width -- operand sizes

An operand is a byte, a word or a double word wide.  The low bit `w` of many opcodes
tells the byte form from the word form.
-/

namespace Asm86.Machine

set_option autoImplicit false

inductive Width where
  | byte
  | word
  | dword
  deriving DecidableEq, Repr

namespace Width

/-- The opcode bit that selects the word form. -/
def bit : Width → UInt8
  | .byte => 0
  | _ => 1

def size : Width → Nat
  | .byte => 1
  | .word => 2
  | .dword => 4

def name : Width → String
  | .byte => "BYTE"
  | .word => "WORD"
  | .dword => "DWORD"

/-- The smallest signed size that holds `value`, up to a word. -/
def ofValue? (value : Int) : Option Width :=
  if -128 ≤ value ∧ value ≤ 127 then some .byte
  else if -32768 ≤ value ∧ value ≤ 32767 then some .word
  else none

end Width

end Asm86.Machine
