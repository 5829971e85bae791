/-
# Asm86.Encoding.Plan -- from an instruction to its layout

`plan` first checks that the group of the operation takes the combination of operands
at all, then hands them to the group's own rule.  Each rule checks operand sizes, takes
the shortest form that the machine has for the accumulator, for plain addresses and for
sign-extended immediates, and never a form whose size depends on the value of a label.

A segment override becomes the first byte of the layout.
-/
import Asm86.Encoding.Layout
import Asm86.Machine.Instruction

namespace Asm86.Encoding

open Asm86.Machine

set_option autoImplicit false

/-- Operands that no encoding of their operation has. -/
inductive OperandFault where
  | popCs
  | addressNotDx
  | shiftCount
  | shiftRegister
  | unhandledMode
  deriving DecidableEq, Repr

def OperandFault.text : OperandFault → String
  | .popCs => "POP CS is not encodable"
  | .addressNotDx => "port register must be DX"
  | .shiftCount => "shift count must be 1 or CL"
  | .shiftRegister => "shift count register must be CL"
  | .unhandledMode => "addressing mode not handled"

inductive EncodeError where
  | sizeMismatch
  | operandMismatch (fault : OperandFault)
  | modeMismatch (op : Operation) (mode : AddrMode)
  deriving DecidableEq, Repr

def EncodeError.message : EncodeError → String
  | .sizeMismatch => "operand size mismatch"
  | .operandMismatch fault => "operand type mismatch: " ++ fault.text
  | .modeMismatch op mode => op.name ++ " does not take " ++ mode.text ++ " operands"

abbrev Planned := Except EncodeError Layout

/-! ## Size checks -/

/-- Two operands of one size, a byte or a word; the result is their `w` bit. -/
def pairBit (a b : Width) : Except EncodeError UInt8 :=
  if a ≠ b ∨ a = .dword then .error .sizeMismatch else .ok a.bit

/-- A byte or word operand. -/
def widthBit (a : Width) : Except EncodeError UInt8 := pairBit a a

def exactly (actual wanted : Width) : Except EncodeError Unit :=
  if actual ≠ wanted then .error .sizeMismatch else .ok ()

/-- A byte destination takes no word. -/
def immediateFits (dst : Width) (i : Immediate) : Except EncodeError Unit :=
  if dst = .byte ∧ i.width ≠ .byte then .error .sizeMismatch else .ok ()

def fault (what : OperandFault) : Planned := .error (.operandMismatch what)

/-! ## The groups -/

def arith (ext : UInt8) : Operands → Planned
  | .regReg dst src => do
      let w ← pairBit dst.width src.width
      return .reg ((ext <<< 3) ||| w) src.id dst.id
  | .regMem dst m => do
      let w ← pairBit dst.width m.width
      return .mem ((ext <<< 3) ||| 2 ||| w) dst.id m
  | .memReg m src => do
      let w ← pairBit m.width src.width
      return .mem ((ext <<< 3) ||| w) src.id m
  | .regImm dst i => do
      let w ← widthBit dst.width
      immediateFits dst.width i
      if dst.width = .byte then
        if dst.isAccumulator then return (Layout.op ((ext <<< 3) ||| 4)).withImm (.byte i.low)
        else return (Layout.reg 0x80 ext dst.id).withImm (.byte i.low)
      else if i.signExtends then return (Layout.reg 0x83 ext dst.id).withImm (.byte i.low)
      else if dst.isAccumulator then
        return (Layout.op ((ext <<< 3) ||| 4 ||| w)).withImm (.word i.word)
      else return (Layout.reg 0x81 ext dst.id).withImm (.word i.word)
  | .memImm m i => do
      let _ ← widthBit m.width
      immediateFits m.width i
      if m.width = .byte then return (Layout.mem 0x80 ext m).withImm (.byte i.low)
      else if i.signExtends then return (Layout.mem 0x83 ext m).withImm (.byte i.low)
      else return (Layout.mem 0x81 ext m).withImm (.word i.word)
  | _ => fault .unhandledMode

def mov : Operands → Planned
  | .regReg dst src => do
      let w ← pairBit dst.width src.width
      return .reg (0x88 ||| w) src.id dst.id
  | .regMem dst m => do
      let w ← pairBit dst.width m.width
      if dst.isAccumulator && m.isDirect then
        return { Layout.op (0xA0 ||| w) with disp := .word m.disp.toUInt16 }
      else return .mem (0x8A ||| w) dst.id m
  | .memReg m src => do
      let w ← pairBit m.width src.width
      if src.isAccumulator && m.isDirect then
        return { Layout.op (0xA2 ||| w) with disp := .word m.disp.toUInt16 }
      else return .mem (0x88 ||| w) src.id m
  | .regImm dst i => do
      let w ← widthBit dst.width
      immediateFits dst.width i
      return (Layout.op ((0xB0 : UInt8) ||| (w <<< 3) ||| dst.id)).withImm (.ofImmediate i dst.width)
  | .memImm m i => do
      let w ← widthBit m.width
      immediateFits m.width i
      return (Layout.mem (0xC6 ||| w) 0 m).withImm (.ofImmediate i m.width)
  | .sregReg s r => do
      exactly r.width .word
      return .reg 0x8E s.id r.id
  | .sregMem s m => do
      exactly m.width .word
      return .mem 0x8E s.id m
  | .regSreg r s => do
      exactly r.width .word
      return .reg 0x8C s.id r.id
  | .memSreg m s => do
      exactly m.width .word
      return .mem 0x8C s.id m
  | _ => fault .unhandledMode

def push : Operands → Planned
  | .reg r => do
      exactly r.width .word
      return .op (0x50 ||| r.id)
  | .sreg s => return .op ((0x06 : UInt8) ||| (s.id <<< 3))
  | .mem m => do
      exactly m.width .word
      return .mem 0xFF 6 m
  | _ => fault .unhandledMode

def pop : Operands → Planned
  | .reg r => do
      exactly r.width .word
      return .op (0x58 ||| r.id)
  | .sreg .cs => fault .popCs
  | .sreg s => return .op ((0x07 : UInt8) ||| (s.id <<< 3))
  | .mem m => do
      exactly m.width .word
      return .mem 0x8F 0 m
  | _ => fault .unhandledMode

def xchg : Operands → Planned
  | .regReg a b => do
      let w ← pairBit a.width b.width
      if w == 1 && a.isAccumulator then return .op (0x90 ||| b.id)
      else if w == 1 && b.isAccumulator then return .op (0x90 ||| a.id)
      else return .reg (0x86 ||| w) b.id a.id
  | .regMem r m | .memReg m r => do
      let w ← pairBit r.width m.width
      return .mem (0x86 ||| w) r.id m
  | _ => fault .unhandledMode

/-- Input and output.  The form with an address byte has the given opcode, the one with DX
is eight above. -/
def inOut (opcode : UInt8) : Operands → Planned
  | .imm i => do
      exactly i.width .byte
      return (Layout.op opcode).withImm (.byte i.low)
  | .reg r => if r.isDx then return .op (opcode + 8) else fault .addressNotDx
  | _ => fault .unhandledMode

def load (opcode : UInt8) (width : Width) : Operands → Planned
  | .regMem r m => do
      exactly r.width .word
      exactly m.width width
      return .mem opcode r.id m
  | _ => fault .unhandledMode

/-- The only count that can be written out is the literal one. -/
def countIsOne (i : Immediate) : Except EncodeError Unit :=
  if i.symbolic ∨ i.value ≠ 1 then .error (.operandMismatch .shiftCount) else .ok ()

def countIsCl (r : Register) : Except EncodeError Unit :=
  if r.isCount then .ok () else .error (.operandMismatch .shiftRegister)

def shift (ext : UInt8) : Operands → Planned
  | .reg r => do
      let w ← widthBit r.width
      return .reg (0xD0 ||| w) ext r.id
  | .mem m => do
      let w ← widthBit m.width
      return .mem (0xD0 ||| w) ext m
  | .regImm r count => do
      countIsOne count
      let w ← widthBit r.width
      return .reg (0xD0 ||| w) ext r.id
  | .memImm m count => do
      countIsOne count
      let w ← widthBit m.width
      return .mem (0xD0 ||| w) ext m
  | .regReg r count => do
      countIsCl count
      let w ← widthBit r.width
      return .reg (0xD2 ||| w) ext r.id
  | .memReg m count => do
      countIsCl count
      let w ← widthBit m.width
      return .mem (0xD2 ||| w) ext m
  | _ => fault .unhandledMode

def unary (ext : UInt8) : Operands → Planned
  | .reg r => do
      let w ← widthBit r.width
      return .reg (0xF6 ||| w) ext r.id
  | .mem m => do
      let w ← widthBit m.width
      return .mem (0xF6 ||| w) ext m
  | _ => fault .unhandledMode

def incDec (ext : UInt8) : Operands → Planned
  | .reg r => do
      if r.width = .byte then return .reg 0xFE ext r.id
      else
        let _ ← widthBit r.width
        return .op ((0x40 : UInt8) ||| (ext <<< 3) ||| r.id)
  | .mem m => do
      let w ← widthBit m.width
      return .mem (0xFE ||| w) ext m
  | _ => fault .unhandledMode

def test : Operands → Planned
  | .regReg dst src => do
      let w ← pairBit dst.width src.width
      return .reg (0x84 ||| w) src.id dst.id
  | .regMem r m | .memReg m r => do
      let w ← pairBit r.width m.width
      return .mem (0x84 ||| w) r.id m
  | .regImm r i => do
      let w ← widthBit r.width
      immediateFits r.width i
      if r.isAccumulator then return (Layout.op (0xA8 ||| w)).withImm (.ofImmediate i r.width)
      else return (Layout.reg (0xF6 ||| w) 0 r.id).withImm (.ofImmediate i r.width)
  | .memImm m i => do
      let w ← widthBit m.width
      immediateFits m.width i
      return (Layout.mem (0xF6 ||| w) 0 m).withImm (.ofImmediate i m.width)
  | _ => fault .unhandledMode

/-- The form that drops a number of bytes from the stack is one below the plain one. -/
def ret (opcode : UInt8) : Operands → Planned
  | .none => return .op opcode
  | .imm i => return (Layout.op (opcode - 1)).withImm (.word i.word)
  | _ => fault .unhandledMode

def near (relative ext : UInt8) : Operands → Planned
  | .imm i => return (Layout.op relative).withImm (.word i.word)
  | .reg r => do
      exactly r.width .word
      return .reg 0xFF ext r.id
  | .mem m => do
      exactly m.width .word
      return .mem 0xFF ext m
  | _ => fault .unhandledMode

/-- A far pointer is written with its offset first. -/
def far (direct ext : UInt8) : Operands → Planned
  | .immImm segment offset =>
      return { Layout.op direct with imm := .word offset.word, imm2 := .word segment.word }
  | .mem m => do
      exactly m.width .dword
      return .mem 0xFF ext m
  | _ => fault .unhandledMode

/-- The breakpoint, vector three, has an opcode of its own. -/
def int : Operands → Planned
  | .imm i => do
      exactly i.width .byte
      if i.value = 3 ∧ i.symbolic = false then return .op 0xCC
      else return (Layout.op 0xCD).withImm (.byte i.low)
  | _ => fault .unhandledMode

def short (opcode : UInt8) : Operands → Planned
  | .imm i => do
      exactly i.width .byte
      return (Layout.op opcode).withImm (.byte i.low)
  | _ => fault .unhandledMode

/-! ## All groups -/

def planGroup (group : Group) (operands : Operands) : Planned :=
  match group with
  | .arith ext => arith ext operands
  | .mov => mov operands
  | .push => push operands
  | .pop => pop operands
  | .xchg => xchg operands
  | .input width => inOut (0xE4 ||| width.bit) operands
  | .output width => inOut (0xE6 ||| width.bit) operands
  | .load opcode width => load opcode width operands
  | .shift ext => shift ext operands
  | .unary ext => unary ext operands
  | .incDec ext => incDec ext operands
  | .test => test operands
  | .ret opcode => ret opcode operands
  | .near relative ext => near relative ext operands
  | .far direct ext => far direct ext operands
  | .int => int operands
  | .short opcode => short opcode operands
  | .single opcode => return .op opcode
  | .double first second => return .op2 first second

/-- The layout of an instruction under a segment override. -/
def plan (i : Instruction) (segment : Option SegReg) : Planned :=
  if i.op.group.accepts i.operands.mode then
    match planGroup i.op.group i.operands with
    | .ok layout => .ok { layout with overrideByte := segment.map SegReg.overrideByte }
    | .error e => .error e
  else .error (.modeMismatch i.op i.operands.mode)

end Asm86.Encoding
