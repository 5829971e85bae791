/-
# Asm86.Machine.Operand -- resolved operands

What an instruction works on once all names have values: registers, memory operands
reduced to the `mod` and `r/m` fields of their encoding, and immediates.

A memory operand with `mode = 0` and `rm = 6` is a plain 16-bit address and always has
a word displacement; otherwise mode 0 has none, mode 1 a byte and every other mode a
word.  An operand is symbolic when a label contributed to its value: its encoding must
then not depend on the value, which the first pass does not know.
-/
import Asm86.Machine.Register
import Asm86.Range
import Asm86.Text.Hex

namespace Asm86.Machine

open Asm86.Text

set_option autoImplicit false

structure Memory where
  width : Width
  mode : UInt8
  rm : UInt8
  disp : Int16
  symbolic : Bool
  deriving DecidableEq, Repr

namespace Memory

/-- A plain address, with no register in it. -/
def direct (width : Width) (address : UInt16) : Memory :=
  ⟨width, 0, 6, address.toInt16, false⟩

/-- An address formed from registers; the fields are cut to their two and three bits. -/
def based (width : Width) (mode rm : UInt8) (disp : Int16) : Memory :=
  ⟨width, mode &&& 3, rm &&& 7, disp, false⟩

def isDirect (m : Memory) : Bool := m.mode == 0 && m.rm == 6

/-- The displacement that follows the ModRM byte. -/
def dispWidth? (m : Memory) : Option Width :=
  if m.mode == 0 then (if m.rm == 6 then some .word else none)
  else if m.mode == 1 then some .byte
  else some .word

/-- How the `r/m` field is written. -/
def rmNames : List String := ["BX+SI", "BX+DI", "BP+SI", "BP+DI", "SI", "DI", "BP", "BX"]

/-- A displacement after registers; only a zero without displacement bytes is left out. -/
def dispText (m : Memory) : String :=
  let d := m.disp.toInt
  if d = 0 ∧ m.mode = 0 then ""
  else if d < 0 then "-" ++ hexUpper 1 (-d).toNat ++ "h"
  else "+" ++ hexUpper 1 d.toNat ++ "h"

def text (m : Memory) : String :=
  let address :=
    if m.isDirect then hexUpper 4 m.disp.toUInt16.toNat ++ "h"
    else rmNames.getD (m.rm.toNat % 8) "" ++ m.dispText
  m.width.name ++ " PTR [" ++ address ++ "]"

end Memory

structure Immediate where
  value : Int16
  width : Width
  symbolic : Bool
  deriving DecidableEq, Repr

namespace Immediate

def ofValue (value : Int16) (width : Width) : Immediate := ⟨value, width, false⟩

/-- The value of a label, always a word. -/
def ofSymbol (value : UInt16) : Immediate := ⟨value.toInt16, .word, true⟩

def low (i : Immediate) : UInt8 := i.value.toUInt16.toUInt8

def word (i : Immediate) : UInt16 := i.value.toUInt16

/-- The low byte, sign-extended, can stand for the value; never so for a symbolic one,
whose size must not change between passes. -/
def signExtends (i : Immediate) : Bool := !i.symbolic && Range.signed8 i.value.toInt

def text (i : Immediate) : String :=
  match i.width with
  | .byte => hexUpper 2 i.low.toNat ++ "h"
  | _ => hexUpper 4 i.word.toNat ++ "h"

end Immediate

/-- The combinations of operands, by kind. -/
inductive AddrMode where
  | noOperand
  | reg
  | mem
  | imm
  | regReg
  | regMem
  | memReg
  | regImm
  | memImm
  | sregReg
  | sregMem
  | regSreg
  | memSreg
  | sreg
  | immImm
  deriving DecidableEq, Repr

namespace AddrMode

def all : List AddrMode :=
  [.noOperand, .reg, .mem, .imm, .regReg, .regMem, .memReg, .regImm, .memImm, .sregReg,
    .sregMem, .regSreg, .memSreg, .sreg, .immImm]

def text : AddrMode → String
  | .noOperand => "no-operand"
  | .reg => "reg"
  | .mem => "mem"
  | .imm => "imm"
  | .regReg => "reg-reg"
  | .regMem => "reg-mem"
  | .memReg => "mem-reg"
  | .regImm => "reg-imm"
  | .memImm => "mem-imm"
  | .sregReg => "sreg-reg"
  | .sregMem => "sreg-mem"
  | .regSreg => "reg-sreg"
  | .memSreg => "mem-sreg"
  | .sreg => "sreg"
  | .immImm => "imm-imm"

end AddrMode

/-- The operands of one instruction, destination first. -/
inductive Operands where
  | none
  | reg (r : Register)
  | mem (m : Memory)
  | imm (i : Immediate)
  | regReg (dst src : Register)
  | regMem (dst : Register) (src : Memory)
  | memReg (dst : Memory) (src : Register)
  | regImm (dst : Register) (src : Immediate)
  | memImm (dst : Memory) (src : Immediate)
  | sregReg (dst : SegReg) (src : Register)
  | sregMem (dst : SegReg) (src : Memory)
  | regSreg (dst : Register) (src : SegReg)
  | memSreg (dst : Memory) (src : SegReg)
  | sreg (s : SegReg)
  | immImm (segment offset : Immediate)
  deriving DecidableEq, Repr

namespace Operands

def mode : Operands → AddrMode
  | .none => .noOperand
  | .reg _ => .reg
  | .mem _ => .mem
  | .imm _ => .imm
  | .regReg .. => .regReg
  | .regMem .. => .regMem
  | .memReg .. => .memReg
  | .regImm .. => .regImm
  | .memImm .. => .memImm
  | .sregReg .. => .sregReg
  | .sregMem .. => .sregMem
  | .regSreg .. => .regSreg
  | .memSreg .. => .memSreg
  | .sreg _ => .sreg
  | .immImm .. => .immImm

def text : Operands → String
  | .none => ""
  | .reg r => r.name
  | .mem m => m.text
  | .imm i => i.text
  | .regReg a b => a.name ++ ", " ++ b.name
  | .regMem a b => a.name ++ ", " ++ b.text
  | .memReg a b => a.text ++ ", " ++ b.name
  | .regImm a b => a.name ++ ", " ++ b.text
  | .memImm a b => a.text ++ ", " ++ b.text
  | .sregReg a b => a.name ++ ", " ++ b.name
  | .sregMem a b => a.name ++ ", " ++ b.text
  | .regSreg a b => a.name ++ ", " ++ b.name
  | .memSreg a b => a.text ++ ", " ++ b.name
  | .sreg s => s.name
  | .immImm segment offset => segment.text ++ ":" ++ offset.text

end Operands

end Asm86.Machine
