/-
# Asm86.Machine.Register -- general and segment registers

A general register is a width and the index that encodes it; byte and word registers
share the indices 0 to 7.  Only the low three bits of an index choose the name.
Segment registers are numbered apart from them.
-/
import Asm86.Machine.Width
import Asm86.Text.Name

namespace Asm86.Machine

open Asm86.Text

set_option autoImplicit false

structure Register where
  width : Width
  id : UInt8
  deriving DecidableEq, Repr

namespace Register

def byteNames : List String := ["AL", "CL", "DL", "BL", "AH", "CH", "DH", "BH"]

def wordNames : List String := ["AX", "CX", "DX", "BX", "SP", "BP", "SI", "DI"]

def cl : Register := ⟨.byte, 1⟩

def dx : Register := ⟨.word, 2⟩

def bx : Register := ⟨.word, 3⟩

def bp : Register := ⟨.word, 5⟩

def si : Register := ⟨.word, 6⟩

def di : Register := ⟨.word, 7⟩

/-- AL or AX. -/
def isAccumulator (r : Register) : Bool := r.id == 0

/-- CL, which counts shifts. -/
def isCount (r : Register) : Bool := r == cl

/-- DX, which input and output take their address from. -/
def isDx (r : Register) : Bool := r == dx

def name (r : Register) : String :=
  match r.width with
  | .byte => byteNames.getD (r.id.toNat % 8) ""
  | _ => wordNames.getD (r.id.toNat % 8) ""

def ofName? (s : List Char) : Option Register :=
  match byteNames.findIdx? fun n => isKeyword n s with
  | some i => some ⟨.byte, UInt8.ofNat i⟩
  | none => (wordNames.findIdx? fun n => isKeyword n s).map fun i => ⟨.word, UInt8.ofNat i⟩

end Register

inductive SegReg where
  | es
  | cs
  | ss
  | ds
  deriving DecidableEq, Repr

namespace SegReg

def id : SegReg → UInt8
  | .es => 0
  | .cs => 1
  | .ss => 2
  | .ds => 3

/-- The byte in front of an instruction that makes it use this segment. -/
def overrideByte (s : SegReg) : UInt8 := (0x26 : UInt8) ||| (s.id <<< 3)

def name : SegReg → String
  | .es => "ES"
  | .cs => "CS"
  | .ss => "SS"
  | .ds => "DS"

def all : List SegReg := [.es, .cs, .ss, .ds]

def ofName? (s : List Char) : Option SegReg := all.find? fun r => isKeyword r.name s

end SegReg

end Asm86.Machine
