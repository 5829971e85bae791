/-
# Asm86.Source.Operand -- operands as a source line writes them

An operand is a general register, a segment register, a memory reference, an expression
or a far pointer `segment:offset`.

A memory reference is what has a `[` in it, or what starts with a segment register and a
colon.  Its brackets only group: `[` counts as a plus sign and `]` as nothing, so that
`table[bx]`, `[table+bx]` and `[table][bx]` are the same.  The segment override is what
stands before the first colon; brackets in front of it are dropped.  At most one of BX
and BP and at most one of SI and DI may be added; the other terms make up the
displacement.

`BYTE`, `WORD` or `DWORD`, with or without `PTR`, may stand before a memory reference.
-/
import Asm86.Source.Expr
import Asm86.Text.Cut

namespace Asm86.Source

open Asm86.Text
open Asm86.Machine

set_option autoImplicit false

inductive BaseReg where
  | bx
  | bp
  deriving DecidableEq, Repr

inductive IndexReg where
  | si
  | di
  deriving DecidableEq, Repr

def BaseReg.register : BaseReg → Register
  | .bx => .bx
  | .bp => .bp

def IndexReg.register : IndexReg → Register
  | .si => .si
  | .di => .di

structure MemoryRef where
  width : Option Width := none
  segment : Option SegReg := none
  base : Option BaseReg := none
  index : Option IndexReg := none
  disp : Expr := {}
  deriving DecidableEq, Repr

inductive Operand where
  | reg (r : Register)
  | sreg (s : SegReg)
  | mem (m : MemoryRef)
  | imm (e : Expr)
  | far (segment offset : Expr)
  deriving DecidableEq, Repr

namespace MemoryRef

def addBase (m : MemoryRef) (b : BaseReg) : Except ParseError MemoryRef :=
  if m.base.isSome then .error .twoBases else .ok { m with base := some b }

def addIndex (m : MemoryRef) (i : IndexReg) : Except ParseError MemoryRef :=
  if m.index.isSome then .error .twoIndexes else .ok { m with index := some i }

def addRegister (m : MemoryRef) (r : Register) : Except ParseError MemoryRef :=
  if r = .bx then m.addBase .bx
  else if r = .bp then m.addBase .bp
  else if r = .si then m.addIndex .si
  else if r = .di then m.addIndex .di
  else .error (.notAddressing r)

def addTerm (m : MemoryRef) (t : Term) : Except ParseError MemoryRef :=
  match Register.ofName? t.text with
  | some r => if t.negative then .error (.subtractedRegister r) else m.addRegister r
  | none => do
      let disp ← m.disp.addTerm t
      return { m with disp }

/-- A reference as a sum: each `[` is a plus sign and each `]` is left out. -/
def flatten (s : List Char) : List Char :=
  (s.filter fun c => c != ']').map fun c => if c == '[' then '+' else c

/-- The segment override of a reference and the reference without it. -/
def splitOverride (s : List Char) : Except ParseError (Option SegReg × List Char) :=
  match cutAt? ':' s with
  | none => .ok (none, s)
  | some (before, after) =>
      let name := (trim before).dropWhile fun c => c == '['
      match SegReg.ofName? name with
      | none => .error (.badOverride (String.ofList name))
      | some r => .ok (some r, if s.head? = some '[' then '[' :: after else after)

def parse (s : List Char) (width : Option Width) : Except ParseError MemoryRef := do
  let (segment, body) ← splitOverride (trim s)
  Terms.foldText addTerm { width, segment } (flatten body)

end MemoryRef

/-- The size written before an operand, and the operand. -/
def splitWidth (s : List Char) : Option Width × List Char :=
  let (word, rest) := splitWord s
  let sized (w : Width) := (some w, (stripKeyword? "PTR" rest).getD rest)
  if isKeyword "BYTE" word then sized .byte
  else if isKeyword "WORD" word then sized .word
  else if isKeyword "DWORD" word then sized .dword
  else (none, s)

namespace Operand

/-- An operand without size and without brackets. -/
def parsePlain (s : List Char) : Except ParseError Operand :=
  match Register.ofName? s, SegReg.ofName? s, cutAt? ':' s with
  | some r, _, _ => .ok (.reg r)
  | none, some r, _ => .ok (.sreg r)
  | none, none, some (before, after) =>
      if (SegReg.ofName? (trim before)).isSome then (MemoryRef.parse s none).map .mem
      else do
        let segment ← Expr.parse before
        let offset ← Expr.parse after
        return .far segment offset
  | none, none, none => (Expr.parse s).map .imm

def parse (s : List Char) : Except ParseError Operand :=
  let (width, body) := splitWidth (trim s)
  if body.contains '[' then (MemoryRef.parse body width).map .mem
  else if width.isSome then .error (.sizeWithoutMemory (String.ofList s))
  else parsePlain body

end Operand

end Asm86.Source
