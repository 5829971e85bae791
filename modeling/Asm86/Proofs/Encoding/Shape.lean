/-
# Asm86.Proofs.Encoding.Shape -- layouts do not depend on the values of labels

The shape of an operand is what remains when the values that the first pass does not know
are put to zero: displacements, symbolic immediates and the distances of short jumps.  The
shape of a layout is its override, opcode and ModRM byte and the kinds of its fields.

Planning operands and planning their shape gives layouts of one shape, or the same fault
(`planGroup_shape`).  So two instructions of one shape are planned alike (`plan_alike`).
-/
import Asm86.Encoding.Plan

namespace Asm86.Machine

set_option autoImplicit false

/-- An immediate without the value of a label. -/
def Immediate.shape (i : Immediate) : Immediate := if i.symbolic then { i with value := 0 } else i

/-- A memory operand without its displacement. -/
def Memory.shape (m : Memory) : Memory := { m with disp := 0 }

/-- A lone immediate: the distance of a short jump counts for nothing. -/
def Immediate.loneShape (group : Group) (i : Immediate) : Immediate :=
  match group with
  | .short _ => { i with value := 0 }
  | _ => i.shape

def Operands.shape (group : Group) : Operands → Operands
  | .mem m => .mem m.shape
  | .imm i => .imm (i.loneShape group)
  | .regMem r m => .regMem r m.shape
  | .memReg m r => .memReg m.shape r
  | .regImm r i => .regImm r i.shape
  | .memImm m i => .memImm m.shape i.shape
  | .sregMem s m => .sregMem s m.shape
  | .memSreg m s => .memSreg m.shape s
  | .immImm segment offset => .immImm segment.shape offset.shape
  | other => other

@[simp] theorem Immediate.shape_width (i : Immediate) : i.shape.width = i.width := by
  unfold shape; split <;> rfl

@[simp] theorem Immediate.shape_symbolic (i : Immediate) : i.shape.symbolic = i.symbolic := by
  unfold shape; split <;> simp_all

@[simp] theorem Immediate.shape_signExtends (i : Immediate) :
    i.shape.signExtends = i.signExtends := by
  unfold shape; split <;> simp_all [signExtends]

/-- A value is compared with a constant only when no label contributed to it. -/
@[simp] theorem Immediate.shape_value_known (i : Immediate) (v : Int16) :
    i.shape.value = v ∧ i.symbolic = false ↔ i.value = v ∧ i.symbolic = false := by
  unfold shape; split <;> simp_all

@[simp] theorem Memory.shape_width (m : Memory) : m.shape.width = m.width := rfl

@[simp] theorem Memory.shape_mode (m : Memory) : m.shape.mode = m.mode := rfl

@[simp] theorem Memory.shape_rm (m : Memory) : m.shape.rm = m.rm := rfl

@[simp] theorem Memory.shape_isDirect (m : Memory) : m.shape.isDirect = m.isDirect := rfl

@[simp] theorem Operands.shape_mode (group : Group) (o : Operands) :
    (o.shape group).mode = o.mode := by
  cases o <;> rfl

/-! ## Everything but the values -/

def Immediate.form (i : Immediate) : Immediate := { i with value := 0 }

/-- Operands without any of their values: what is left are the addressing mode, the registers,
the widths, the `mod` and `r/m` fields, and which operands are symbolic. -/
def Operands.form : Operands → Operands
  | .mem m => .mem m.shape
  | .imm i => .imm i.form
  | .regMem r m => .regMem r m.shape
  | .memReg m r => .memReg m.shape r
  | .regImm r i => .regImm r i.form
  | .memImm m i => .memImm m.shape i.form
  | .sregMem s m => .sregMem s m.shape
  | .memSreg m s => .memSreg m.shape s
  | .immImm segment offset => .immImm segment.form offset.form
  | other => other

@[simp] theorem Immediate.form_shape (i : Immediate) : i.shape.form = i.form := by
  unfold shape; split <;> rfl

@[simp] theorem Immediate.form_loneShape (group : Group) (i : Immediate) :
    (i.loneShape group).form = i.form := by
  unfold loneShape
  split
  · rfl
  · exact i.form_shape

/-- A shape keeps more than the form: it forgets only the values that the first pass does not
know. -/
theorem Operands.form_shape (group : Group) (o : Operands) : (o.shape group).form = o.form := by
  cases o <;> simp [shape, form, Memory.shape]

end Asm86.Machine

namespace Asm86.Encoding

open Asm86.Machine

set_option autoImplicit false

def Field.shape : Field → Field
  | .none => .none
  | .byte _ => .byte 0
  | .word _ => .word 0

def Layout.shape (l : Layout) : Layout :=
  { l with disp := l.disp.shape, imm := l.imm.shape, imm2 := l.imm2.shape }

@[simp] theorem Field.size_shape (f : Field) : f.shape.size = f.size := by
  cases f <;> rfl

@[simp] theorem Layout.size_shape (l : Layout) : l.shape.size = l.size := by
  simp [Layout.shape, Layout.size]

/-! ## Layouts of operands and of their shapes -/

@[simp] theorem Field.shape_ofDisp (m : Memory) :
    (Field.ofDisp m.shape).shape = (Field.ofDisp m).shape := by
  have same : m.shape.dispWidth? = m.dispWidth? := rfl
  unfold ofDisp
  rw [same]
  split <;> rfl

@[simp] theorem Field.shape_ofImmediate (i : Immediate) (w : Width) :
    (Field.ofImmediate i.shape w).shape = (Field.ofImmediate i w).shape := by
  cases w <;> rfl

@[simp] theorem Layout.shape_mem (opcode reg : UInt8) (m : Memory) :
    (Layout.mem opcode reg m.shape).shape = (Layout.mem opcode reg m).shape := by
  simp [Layout.mem, Layout.shape]

@[simp] theorem Layout.shape_mk (override : Option UInt8) (opcode : List UInt8)
    (modrm : Option UInt8) (disp imm imm2 : Field) :
    (Layout.mk override opcode modrm disp imm imm2).shape =
      ⟨override, opcode, modrm, disp.shape, imm.shape, imm2.shape⟩ := rfl

@[simp] theorem Layout.shape_withImm (l : Layout) (f : Field) :
    (l.withImm f).shape = l.shape.withImm f.shape := rfl

@[simp] theorem Field.shape_byte (b : UInt8) : (Field.byte b).shape = .byte 0 := rfl

@[simp] theorem Field.shape_word (w : UInt16) : (Field.word w).shape = .word 0 := rfl

/-! ## Checks -/

@[simp] theorem immediateFits_shape (w : Width) (i : Immediate) :
    immediateFits w i.shape = immediateFits w i := by
  simp [immediateFits]

@[simp] theorem countIsOne_shape (i : Immediate) : countIsOne i.shape = countIsOne i := by
  unfold Immediate.shape; split <;> simp_all [countIsOne]

/-! ## The groups -/

/-- The shape of a planned layout. -/
def Planned.shape (p : Planned) : Planned := p.map Layout.shape

@[simp] theorem Planned.shape_bind {α : Type} (x : Except EncodeError α) (f : α → Planned) :
    Planned.shape (x >>= f) = x >>= fun a => Planned.shape (f a) := by
  cases x <;> rfl

@[simp] theorem Planned.shape_pure (l : Layout) : Planned.shape (pure l) = pure l.shape := rfl

@[simp] theorem Planned.shape_ite (c : Prop) [Decidable c] (p q : Planned) :
    Planned.shape (if c then p else q) = if c then Planned.shape p else Planned.shape q := by
  split <;> rfl

@[simp] theorem Planned.shape_map {α : Type} (x : Except EncodeError α) (f : α → Layout) :
    Planned.shape (f <$> x) = (fun a => (f a).shape) <$> x := by
  cases x <;> rfl

theorem planGroup_shape (group : Group) (o : Operands) :
    Planned.shape (planGroup group (o.shape group)) = Planned.shape (planGroup group o) := by
  cases group with
  | arith ext => cases o <;> simp [planGroup, Operands.shape, arith]
  | mov => cases o <;> simp [planGroup, Operands.shape, mov]
  | push => cases o <;> simp [planGroup, Operands.shape, push]
  | pop => cases o <;> simp [planGroup, Operands.shape, pop]
  | xchg => cases o <;> simp [planGroup, Operands.shape, xchg]
  | input width => cases o <;> simp [planGroup, Operands.shape, inOut, Immediate.loneShape]
  | output width => cases o <;> simp [planGroup, Operands.shape, inOut, Immediate.loneShape]
  | load opcode width => cases o <;> simp [planGroup, Operands.shape, load]
  | shift ext => cases o <;> simp [planGroup, Operands.shape, shift]
  | unary ext => cases o <;> simp [planGroup, Operands.shape, unary]
  | incDec ext => cases o <;> simp [planGroup, Operands.shape, incDec]
  | test => cases o <;> simp [planGroup, Operands.shape, test]
  | ret opcode => cases o <;> simp [planGroup, Operands.shape, ret, Immediate.loneShape]
  | near relative ext => cases o <;> simp [planGroup, Operands.shape, near, Immediate.loneShape]
  | far direct ext => cases o <;> simp [planGroup, Operands.shape, far]
  | int => cases o <;> simp [planGroup, Operands.shape, int, Immediate.loneShape]
  | short opcode => cases o <;> simp [planGroup, Operands.shape, short, Immediate.loneShape]
  | single opcode => rfl
  | double first second => rfl

/-- Instructions of one shape get layouts of one shape, or the same fault. -/
theorem plan_alike {op : Operation} {a b : Operands} (segment : Option SegReg)
    (alike : a.shape op.group = b.shape op.group) :
    Planned.shape (plan ⟨op, a⟩ segment) = Planned.shape (plan ⟨op, b⟩ segment) := by
  have mode : a.mode = b.mode := by
    rw [← Operands.shape_mode op.group a, alike, Operands.shape_mode]
  have groups : Planned.shape (planGroup op.group a) = Planned.shape (planGroup op.group b) := by
    rw [← planGroup_shape op.group a, alike, planGroup_shape]
  unfold plan
  simp only [mode]
  split
  · -- The override is put in front of two layouts of one shape.
    cases left : planGroup op.group a <;> cases right : planGroup op.group b <;>
      simp_all [Planned.shape, Except.map, Layout.shape]
  · rfl

/-- What can be planned for one of them can be planned for the other, in as many bytes. -/
theorem plan_ok_of_alike {op : Operation} {a b : Operands} {segment : Option SegReg}
    (alike : a.shape op.group = b.shape op.group) {layout : Layout}
    (planned : plan ⟨op, a⟩ segment = .ok layout) :
    ∃ other, plan ⟨op, b⟩ segment = .ok other ∧ other.size = layout.size := by
  have shapes := plan_alike segment alike
  rw [planned] at shapes
  cases result : plan ⟨op, b⟩ segment with
  | error e =>
      rw [result] at shapes
      cases shapes
  | ok other =>
      rw [result] at shapes
      refine ⟨other, rfl, ?_⟩
      have same : layout.shape = other.shape := Except.ok.inj shapes
      rw [← Layout.size_shape other, ← same, Layout.size_shape]

end Asm86.Encoding
