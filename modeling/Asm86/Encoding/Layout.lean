/-
# Asm86.Encoding.Layout -- the bytes of one encoded instruction

An encoded instruction is, in this order: a segment override, the opcode, the ModRM
byte, a displacement and up to two immediates, each of them optional except the opcode.
The first pass only asks for the size of a layout and the second writes its bytes, so
the two must agree: `length_bytes`.
-/
import Asm86.Bytes
import Asm86.Machine.Operand

namespace Asm86.Encoding

open Asm86.Machine

set_option autoImplicit false

/-- A number after the opcode. -/
inductive Field where
  | none
  | byte (b : UInt8)
  | word (w : UInt16)
  deriving DecidableEq, Repr

namespace Field

def size : Field → Nat
  | .none => 0
  | .byte _ => 1
  | .word _ => 2

def bytes : Field → List UInt8
  | .none => []
  | .byte b => [b]
  | .word w => Bytes.ofWord w

/-- An immediate brought to `width`: its low byte, or the whole word. -/
def ofImmediate (i : Immediate) : Width → Field
  | .byte => .byte i.low
  | _ => .word i.word

/-- The displacement of a memory operand. -/
def ofDisp (m : Memory) : Field :=
  match m.dispWidth? with
  | Option.none => .none
  | some .byte => .byte m.disp.toUInt16.toUInt8
  | some _ => .word m.disp.toUInt16

@[simp] theorem length_bytes (f : Field) : f.bytes.length = f.size := by
  cases f <;> rfl

end Field

/-- The byte that holds the `mod`, `reg` and `r/m` fields. -/
def modrm (mode reg rm : UInt8) : UInt8 :=
  ((mode &&& 3) <<< 6) ||| ((reg &&& 7) <<< 3) ||| (rm &&& 7)

structure Layout where
  overrideByte : Option UInt8 := none
  opcode : List UInt8 := []
  modrm : Option UInt8 := none
  disp : Field := .none
  imm : Field := .none
  /-- The segment word of a far pointer. -/
  imm2 : Field := .none
  deriving DecidableEq, Repr

namespace Layout

def op (opcode : UInt8) : Layout := { opcode := [opcode] }

def op2 (first second : UInt8) : Layout := { opcode := [first, second] }

/-- Two register operands. -/
def reg (opcode reg rm : UInt8) : Layout :=
  { opcode := [opcode], modrm := some (Encoding.modrm 3 reg rm) }

/-- A register field and a memory operand with its displacement. -/
def mem (opcode reg : UInt8) (m : Memory) : Layout :=
  { opcode := [opcode], modrm := some (Encoding.modrm m.mode reg m.rm), disp := .ofDisp m }

def withImm (l : Layout) (f : Field) : Layout := { l with imm := f }

def size (l : Layout) : Nat :=
  l.overrideByte.toList.length + l.opcode.length + l.modrm.toList.length + l.disp.size +
    l.imm.size + l.imm2.size

def bytes (l : Layout) : List UInt8 :=
  l.overrideByte.toList ++ l.opcode ++ l.modrm.toList ++ l.disp.bytes ++ l.imm.bytes ++
    l.imm2.bytes

@[simp] theorem length_bytes (l : Layout) : l.bytes.length = l.size := by
  simp [bytes, size, Nat.add_assoc]

end Layout

end Asm86.Encoding
