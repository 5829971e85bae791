/-
# Asm86.Proofs.Assembly.Independence -- form does not depend on the values of names

What a source line looks like in the image is decided by its text.  Two scopes may know
different labels, at different offsets, and may be of different phases; as long as both can
resolve an instruction, they choose the same registers, widths and address forms for it, ask
for the same segment override, and the layouts planned for it differ at most in the numbers
in their fields (`forms_independent`).  Data takes as many bytes under the one as under the
other.
-/
import Asm86.Proofs.Assembly.Steps
import Asm86.Proofs.Assembly.Values

namespace Asm86.Assembly

open Asm86.Checked
open Asm86.Machine
open Asm86.Encoding
open Asm86.Source
open Asm86.Symbols

set_option autoImplicit false

namespace Scope

/-- What a source instruction becomes: an instruction of the machine, and the segment override
that its operands ask for. -/
def resolve (s : Scope) (op : Operation) (sources : List Operand) :
    Except AsmError (Instruction × Option SegReg) := do
  let i ← s.instruction op sources
  return (i, segmentOf? sources)

theorem resolve_ok {s : Scope} {op : Operation} {sources : List Operand} {i : Instruction}
    {segment : Option SegReg} (resolved : s.resolve op sources = .ok (i, segment)) :
    ∃ o, Resolves s op sources o ∧ i = ⟨op, o⟩ ∧ segment = segmentOf? sources := by
  obtain ⟨i', found, done⟩ := bind_eq_ok.1 resolved
  obtain ⟨o, operands, rfl⟩ := map_eq_ok.1 found
  cases done
  exact ⟨o, operands_ok operands, rfl, rfl⟩

end Scope

/-- An instruction line without a lead resolves its operands and is then done under the
override that they ask for, or else the pending one. -/
theorem Assembler.sourceInstruction_resolve (phase : Phase) (op : Operation)
    (sources : List Operand) (a : Assembler) :
    sourceInstruction phase none op sources a =
      match (a.scope phase).resolve op sources with
      | .ok (i, segment) => instruction phase i { a with pending := segment.or a.pending }
      | .error e => .error e a := by
  rw [sourceInstruction_none, Scope.resolve, Scope.instruction]
  cases (a.scope phase).operands op sources <;> rfl

/-- **No form depends on the value of a name.**  Instructions that two scopes make of the same
source agree in everything but values, and so do their layouts under any pending override, or
neither has a layout, for the same reason.  Data items take the same number of bytes. -/
theorem forms_independent (s t : Scope) :
    (∀ (op : Operation) (sources : List Operand) (i j : Instruction) (segment segment' : Option SegReg),
      s.resolve op sources = .ok (i, segment) → t.resolve op sources = .ok (j, segment') →
        segment = segment' ∧ i.op = j.op ∧ i.operands.mode = j.operands.mode ∧
          i.operands.form = j.operands.form ∧
          ∀ pending, Planned.shape (plan i pending) = Planned.shape (plan j pending)) ∧
      ∀ (width : Width) (items : List DataItem) (bytes bytes' : List UInt8),
        s.data width items = .ok bytes → t.data width items = .ok bytes' →
          bytes.length = bytes'.length := by
  refine ⟨?_, fun width items bytes bytes' left right => Scope.dataFrom_length left right⟩
  intro op sources i j segment segment' left right
  obtain ⟨a, fromLeft, rfl, rfl⟩ := Scope.resolve_ok left
  obtain ⟨b, fromRight, rfl, rfl⟩ := Scope.resolve_ok right
  have alike : a.shape op.group = b.shape op.group := fromLeft.shape_eq fromRight
  have mode : a.mode = b.mode := by
    rw [← Operands.shape_mode op.group a, alike, Operands.shape_mode]
  have form : a.form = b.form := by
    rw [← Operands.form_shape op.group a, alike, Operands.form_shape]
  exact ⟨rfl, rfl, mode, form, fun pending => plan_alike pending alike⟩

/-- A small label keeps the word form that it was sized with while nothing was known of it. -/
theorem forms_independent_small_label :
    (Scope.mk {} .sizing).resolve .add [.reg .bx, .imm ⟨1, some "N"⟩] =
        .ok (⟨.add, .regImm .bx (.ofSymbol 1)⟩, none) ∧
      (Scope.mk { labels := [⟨"N", "C", 500⟩] } .encoding).resolve .add
          [.reg .bx, .imm ⟨1, some "N"⟩] = .ok (⟨.add, .regImm .bx (.ofSymbol 501)⟩, none) ∧
      Planned.shape (plan ⟨.add, .regImm .bx (.ofSymbol 1)⟩ (some .es)) =
        Planned.shape (plan ⟨.add, .regImm .bx (.ofSymbol 501)⟩ (some .es)) ∧
      (plan ⟨.add, .regImm .bx (.ofSymbol 1)⟩ (some .es)).map Layout.bytes =
        .ok [0x26, 0x81, 0xC3, 1, 0] := by
  have unknown : (Scope.mk {} .sizing).resolve .add [.reg .bx, .imm ⟨1, some "N"⟩] =
      .ok (⟨.add, .regImm .bx (.ofSymbol 1)⟩, none) := by decide
  have known : (Scope.mk { labels := [⟨"N", "C", 500⟩] } .encoding).resolve .add
      [.reg .bx, .imm ⟨1, some "N"⟩] = .ok (⟨.add, .regImm .bx (.ofSymbol 501)⟩, none) := by decide
  have alike := (forms_independent _ _).1 _ _ _ _ _ _ unknown known
  exact ⟨unknown, known, alike.2.2.2.2 (some .es), by decide⟩

end Asm86.Assembly
