/-
# Asm86.Assembly.Scope -- giving operands their values

A scope is a symbol table and the phase of assembly.  It turns the operands of a source
line into operands of the machine.

* A name counts as the offset of its label.  In the sizing phase an unknown name counts
  as zero; in the encoding phase it is an error.
* Sizes never depend on the value of a name: a symbolic immediate is a word, a symbolic
  displacement takes mode 2.
* The target of a relative jump is an image address, a bare number being counted from the
  start of the current segment.  Distances run from the end of the jump.  In the sizing
  phase a distance that does not fit is let pass.
* A memory operand takes its size from the source, else from the register beside it, else
  from the operation; the count of a shift and the target of a load do not size it.
-/
import Asm86.Assembly.Error
import Asm86.Bytes
import Asm86.Source.Line

namespace Asm86.Assembly

open Asm86.Text
open Asm86.Machine
open Asm86.Source
open Asm86.Symbols

set_option autoImplicit false

/-- The first phase sizes statements and collects symbols, the second encodes. -/
inductive Phase where
  | sizing
  | encoding
  deriving DecidableEq, Repr

structure Scope where
  symbols : SymbolTable
  phase : Phase
  deriving DecidableEq, Repr

/-- The value of an expression, and whether a label contributed to it. -/
structure Value where
  value : Int
  symbolic : Bool
  deriving DecidableEq, Repr

/-- The constant part of an expression counted from `base`. -/
def offsetFrom (base : Int) (e : Expr) : Except AsmError Int :=
  match Range.checked64 (base + e.value) with
  | some v => .ok v
  | none => .error (.immediateOutOfRange e.value)

/-- A value as the word with its bits. -/
def wordOf (value : Int) : Except AsmError Int16 :=
  if Range.word value then .ok (Int16.ofInt value) else .error (.immediateOutOfRange value)

/-- The `r/m` field of the registers of a memory reference; none when there are none. -/
def rmOf? : Option BaseReg → Option IndexReg → Option UInt8
  | some .bx, some .si => some 0
  | some .bx, some .di => some 1
  | some .bp, some .si => some 2
  | some .bp, some .di => some 3
  | none, some .si => some 4
  | none, some .di => some 5
  | some .bp, none => some 6
  | some .bx, none => some 7
  | none, none => none

/-- The displacement mode.  BP alone has no form without displacement. -/
def dispMode (v : Value) (rm : UInt8) : UInt8 :=
  if v.symbolic then 2
  else if v.value = 0 ∧ rm ≠ 6 then 0
  else if Range.signed8 v.value then 1
  else 2

/-- The size of a memory operand that nothing else sizes. -/
def defaultWidth (op : Operation) : Width :=
  match op.group with
  | .load _ width => width
  | .far .. => .dword
  | _ => .word

/-- The size of a memory operand read into `r`. -/
def sourceWidth (op : Operation) (r : Register) : Width :=
  match op.group with
  | .load .. => defaultWidth op
  | _ => r.width

/-- The size of a memory operand that `r` is combined with. -/
def targetWidth (op : Operation) (r : Register) : Width :=
  match op.group with
  | .shift _ => defaultWidth op
  | _ => r.width

namespace Scope

/-! ## Values -/

def value (s : Scope) (e : Expr) : Except AsmError Value :=
  match e.symbol with
  | none => .ok ⟨e.value, false⟩
  | some name =>
      match s.symbols.resolve? name, s.phase with
      | some label, _ => (offsetFrom label.offset.toNat e).map (⟨·, true⟩)
      | none, .sizing => .ok ⟨e.value, true⟩
      | none, .encoding => .error (.undefinedLabel name)

def immediate (s : Scope) (e : Expr) : Except AsmError Immediate := do
  let v ← s.value e
  let word ← wordOf v.value
  if v.symbolic then return .ofSymbol word.toUInt16
  else return .ofValue word (if Range.byte v.value then .byte else .word)

def memory (s : Scope) (m : MemoryRef) (width : Width) : Except AsmError Memory := do
  let v ← s.value m.disp
  let disp ← wordOf v.value
  let width := m.width.getD width
  match rmOf? m.base m.index with
  | none => return { Memory.direct width disp.toUInt16 with symbolic := v.symbolic }
  | some rm => return { Memory.based width (dispMode v rm) rm disp with symbolic := v.symbolic }

/-! ## Jumps -/

/-- The image address that an expression is counted from; none when it is not known yet. -/
def branchBase (s : Scope) (e : Expr) : Except AsmError (Option UInt32) :=
  match e.symbol with
  | none => .ok (s.symbols.currentSegment?.map Segment.start)
  | some name =>
      match s.symbols.resolve? name, s.phase with
      | some label, _ => (s.symbols.addressOf? label).mapError .symbol
      | none, .sizing => .ok none
      | none, .encoding => .error (.undefinedLabel name)

/-- The distance to a target from the end of a jump of `len` bytes that stands here. -/
def distance (s : Scope) (e : Expr) (len : Nat) : Except AsmError Int := do
  let here ← (s.symbols.here?).mapError AsmError.symbol
  match ← s.branchBase e with
  | none => return 0
  | some base =>
      let target ← offsetFrom base.toNat e
      match Range.checked64 (target - ((here.getD 0).toNat + len : Nat)) with
      | some d => return d
      | none => throw (.immediateOutOfRange e.value)

/-- How messages name the target of a jump: a bare number by the bits of its 64-bit form. -/
def targetName (e : Expr) : String :=
  e.symbol.getD (hexLower 1 (e.value % 18446744073709551616).toNat)

/-- The distance of a jump with a byte for it. -/
def shortBranch (s : Scope) (e : Expr) : Except AsmError Immediate := do
  let d ← s.distance e 2
  if Range.signed8 d then return .ofValue (Int16.ofInt d) .byte
  else
    match s.phase with
    | .sizing => return .ofValue 0 .byte
    | .encoding => throw (.branchOutOfRange (targetName e) d)

/-- The distance of a jump with a word for it. -/
def nearBranch (s : Scope) (e : Expr) : Except AsmError Immediate := do
  let d ← s.distance e 3
  if Range.signed16 d || s.phase == .sizing then return .ofSymbol (UInt16.ofInt d)
  else throw (.branchOutOfRange (targetName e) d)

/-- A lone immediate operand. -/
def single (s : Scope) (op : Operation) (e : Expr) : Except AsmError Immediate :=
  match op.group with
  | .short _ => s.shortBranch e
  | .near .. => s.nearBranch e
  | _ => s.immediate e

/-! ## Instructions -/

/-- Both parts of a far pointer are words. -/
def farPointer (s : Scope) (segment offset : Expr) : Except AsmError Operands := do
  let segment ← s.immediate segment
  let offset ← s.immediate offset
  return .immImm { segment with width := .word } { offset with width := .word }

def operands (s : Scope) (op : Operation) : List Operand → Except AsmError Operands
  | [] => .ok .none
  | [.reg r] => .ok (.reg r)
  | [.mem m] => (s.memory m (defaultWidth op)).map .mem
  | [.imm e] => (s.single op e).map .imm
  | [.sreg r] => .ok (.sreg r)
  | [.far segment offset] => s.farPointer segment offset
  | [.imm segment, .imm offset] => s.farPointer segment offset
  | [.reg a, .reg b] => .ok (.regReg a b)
  | [.reg r, .mem m] => (s.memory m (sourceWidth op r)).map (.regMem r)
  | [.mem m, .reg r] => (s.memory m (targetWidth op r)).map (.memReg · r)
  | [.reg r, .imm e] => (s.immediate e).map (.regImm r)
  | [.mem m, .imm e] => do
      let dst ← s.memory m (defaultWidth op)
      let src ← s.immediate e
      return .memImm dst src
  | [.sreg d, .reg r] => .ok (.sregReg d r)
  | [.sreg d, .mem m] => (s.memory m .word).map (.sregMem d)
  | [.reg r, .sreg d] => .ok (.regSreg r d)
  | [.mem m, .sreg d] => (s.memory m .word).map (.memSreg · d)
  | _ => .error (.unsupportedOperands op)

/-- The segment override that some memory operand asks for, the first of several. -/
def segmentOf? (operands : List Operand) : Option SegReg :=
  operands.findSome? fun o =>
    match o with
    | .mem m => m.segment
    | _ => none

def instruction (s : Scope) (op : Operation) (operands : List Operand) :
    Except AsmError Instruction :=
  (s.operands op operands).map (⟨op, ·⟩)

/-! ## Data -/

/-- One number of a data statement. -/
def dataValue (s : Scope) (width : Width) (e : Expr) : Except AsmError (List UInt8) := do
  let v ← s.value e
  if width = .byte then
    if Range.byte v.value then return [UInt8.ofInt v.value]
    else throw (.immediateOutOfRange v.value)
  else
    let word ← wordOf v.value
    return Bytes.ofWord word.toUInt16

/-- The current segment has room for so many more bytes. -/
def checkRoom (s : Scope) (len : Nat) : Except AsmError Unit :=
  match s.symbols.currentSegment? with
  | some seg =>
      if seg.counter.toNat + len ≤ 65536 then .ok ()
      else .error (.symbol (.segmentOverflow seg.name))
  | none => if len ≤ 65536 then .ok () else .error (.symbol (.segmentOverflow ""))

/-- The bytes of one item, after `before` bytes of the same statement. -/
def dataItem (s : Scope) (width : Width) (before : Nat) : DataItem → Except AsmError (List UInt8)
  | .string bytes =>
      if width = .byte then .ok bytes
      else .ok (bytes.flatMap fun b => Bytes.ofWord b.toUInt16)
  | .value e => s.dataValue width e
  | .dup count e => do
      s.checkRoom (before + count * width.size)
      if count = 0 then return []
      else
        let one ← s.dataValue width e
        return (List.replicate count one).flatten

/-- The bytes of the items, after `before` bytes of the same statement. -/
def dataFrom (s : Scope) (width : Width) (before : Nat) :
    List DataItem → Except AsmError (List UInt8)
  | [] => .ok []
  | item :: rest => do
      let first ← s.dataItem width before item
      let others ← s.dataFrom width (before + first.length) rest
      return first ++ others

/-- The bytes of a data statement. -/
def data (s : Scope) (width : Width) (items : List DataItem) : Except AsmError (List UInt8) :=
  s.dataFrom width 0 items

end Scope

end Asm86.Assembly
