/-
# Asm86.Proofs.Encoding.Fields -- where a layout keeps the numbers of its operands

Whatever the form, the displacement of a memory operand is the displacement of the layout
(`Form.disp_eq`), a symbolic word is its immediate in full (`Form.imm_eq`), and a far pointer
its two immediates (`Form.pointer_eq`).  A relative jump is its opcode and then the distance.
-/
import Asm86.Proofs.Encoding.Forms

namespace Asm86.Machine

set_option autoImplicit false

namespace Operands

/-- The memory operand, of which there is at most one. -/
def memory? : Operands → Option Memory
  | .mem m | .regMem _ m | .memReg m _ | .memImm m _ | .sregMem _ m | .memSreg m _ => some m
  | _ => Option.none

/-- The immediate operand; a far pointer is not one. -/
def immediate? : Operands → Option Immediate
  | .imm i | .regImm _ i | .memImm _ i => some i
  | _ => Option.none

end Operands

end Asm86.Machine

namespace Asm86.Encoding

open Asm86.Machine

set_option autoImplicit false

variable {group : Group} {o : Operands} {layout : Layout}

theorem Field.ofDisp_direct {m : Memory} (direct : m.isDirect = true) :
    Field.ofDisp m = .word m.disp.toUInt16 := by
  obtain ⟨mode, rm⟩ : m.mode = 0 ∧ m.rm = 6 := by simpa [Memory.isDirect] using direct
  simp [Field.ofDisp, Memory.dispWidth?, mode, rm]

theorem Form.disp_eq (form : Form group o layout) {m : Memory} (memory : o.memory? = some m) :
    layout.disp = .ofDisp m := by
  cases form with
  | movAccDirect _ _ _ direct =>
      cases memory
      exact (Field.ofDisp_direct direct).symm
  | movDirectAcc _ _ _ direct =>
      cases memory
      exact (Field.ofDisp_direct direct).symm
  | _ =>
      cases memory
      all_goals rfl

/-- A word keeps both its bytes where bytes are refused. -/
theorem ofImmediate_eq {i : Immediate} {w : Width} (fits : Takes w i) (word : i.width = .word) :
    Field.ofImmediate i w = .word i.word := by
  cases w with
  | byte => simp [fits rfl] at word
  | word => rfl
  | dword => rfl

/-- Forms that cut an immediate to a byte are not for symbolic words. -/
theorem Form.imm_eq (form : Form group o layout) {i : Immediate} (immediate : o.immediate? = some i)
    (word : i.width = .word) (symbolic : i.symbolic = true) : layout.imm = .word i.word := by
  cases form with
  | arithAccByte _ fits _ | arithRegByte _ fits | arithMemByte _ fits =>
      cases immediate
      cases fits.symm.trans word
  | arithRegExtended _ extends_ | arithMemExtended _ extends_ =>
      cases immediate
      simp [Immediate.signExtends, symbolic] at extends_
  | movRegImm _ fits | movMemImm _ fits | testAccImm _ fits _ | testRegImm _ fits
  | testMemImm _ fits =>
      cases immediate
      exact ofImmediate_eq fits word
  | inputImm byte | outputImm byte | breakpoint byte _ | int byte | short byte =>
      cases immediate
      cases byte.symm.trans word
  | shiftRegOne _ _ literal | shiftMemOne _ _ literal =>
      cases immediate
      cases literal.symm.trans symbolic
  | _ =>
      cases immediate
      all_goals rfl

theorem Form.pointer_eq {segment offset : Immediate} (form : Form group (.immImm segment offset) layout) :
    layout.imm = .word offset.word ∧ layout.imm2 = .word segment.word := by
  cases form
  exact ⟨rfl, rfl⟩

theorem Form.short_eq {opcode : UInt8} {i : Immediate} (form : Form (.short opcode) (.imm i) layout) :
    layout = (Layout.op opcode).withImm (.byte i.low) := by
  cases form
  rfl

theorem Form.near_eq {relative ext : UInt8} {i : Immediate}
    (form : Form (.near relative ext) (.imm i) layout) :
    layout = (Layout.op relative).withImm (.word i.word) := by
  cases form
  rfl

end Asm86.Encoding
