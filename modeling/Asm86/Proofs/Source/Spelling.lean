/-
# Asm86.Proofs.Source.Spelling -- how instruction lines are written

The written form of operands and of instruction lines, as a grammar beside the reader:

* An expression is a sum of at most one name and at most one constant, in decimal and in
  either order.  A constant of zero may be left out, but not the whole sum.
* A memory reference has such a sum in brackets, with at most one base and one index register
  in it, all of them in any order.  Before the brackets there may be a segment register and a
  colon, and before these a size.
* A far pointer is two expressions with a colon between them.
* A line is a label and a colon, if it has a label, then a mnemonic and the operands, with
  commas between them.

`Operand.Spelled` relates an operand to each of its texts; every operand has one
(`Operand.exists_spelled`).  `Operand.Writable` says which operands a text can mean: names must be
free of other meanings, and constants must have a literal.
-/
import Asm86.Proofs.Checked
import Asm86.Proofs.Text.Decimal
import Asm86.Source.Line

namespace Asm86.Source

open Asm86.Text
open Asm86.Machine

set_option autoImplicit false

/-! ## Names -/

/-- Words that do not stand for a label where an operand is expected. -/
def reservedWords : List String :=
  Register.byteNames ++ Register.wordNames ++ SegReg.all.map SegReg.name ++
    ["SEGMENT", "ENDS", "DB", "DW", "BYTE", "WORD", "DWORD", "PTR", "OFFSET"]

/-- No spelling of a reserved word, in either case. -/
def Unreserved (s : List Char) : Prop := ∀ w ∈ reservedWords, isKeyword w s = false

/-- An identifier that can name a label in an operand. -/
structure FreeName (s : String) : Prop where
  identifier : isIdentifier s.toList = true
  unreserved : Unreserved s.toList

/-- An identifier that can stand before the colon of a label. -/
structure LabelName (s : String) : Prop where
  identifier : isIdentifier s.toList = true
  notSegment : SegReg.ofName? s.toList = none

/-! ## Sums -/

/-- One term of a sum. -/
inductive Part where
  | base (b : BaseReg)
  | index (i : IndexReg)
  | name (s : String)
  | constant (v : Int)
  deriving DecidableEq, Repr

/-- The sign and the text of a part. -/
def Part.term : Part → Term
  | .base b => ⟨false, b.register.name.toList⟩
  | .index i => ⟨false, i.register.name.toList⟩
  | .name s => ⟨false, s.toList⟩
  | .constant v => ⟨decide (v < 0), decimal v.natAbs⟩

/-- A term after its sign. -/
def Term.signed (t : Term) : List Char := (if t.negative then '-' else '+') :: t.text

/-- Terms after their signs; the first goes without a plus. -/
def sumText : List Term → List Char
  | [] => []
  | t :: rest => (if t.negative then t.signed else t.text) ++ rest.flatMap Term.signed

def partsText (parts : List Part) : List Char := sumText (parts.map Part.term)

/-- The parts of a sum of these registers and this expression, in any order; a constant that
is left out is zero. -/
structure PartsOf (base : Option BaseReg) (index : Option IndexReg) (e : Expr)
    (parts : List Part) : Prop where
  nonempty : parts ≠ []
  complete : ∃ constant : Option Int, constant.getD 0 = e.value ∧
    parts.Perm (base.toList.map .base ++ index.toList.map .index ++ e.symbol.toList.map .name ++
      constant.toList.map .constant)

/-! ## Operands -/

def sizeText : Option Width → List Char
  | none => []
  | some w => w.name.toList ++ [' ', 'P', 'T', 'R', ' ']

def overrideText : Option SegReg → List Char
  | none => []
  | some s => s.name.toList ++ [':']

/-- A reference after its size. -/
def referenceText (segment : Option SegReg) (parts : List Part) : List Char :=
  overrideText segment ++ '[' :: (partsText parts ++ [']'])

/-- The texts of an operand. -/
inductive Operand.Spelled : Operand → List Char → Prop where
  | reg (r : Register) : Spelled (.reg r) r.name.toList
  | sreg (s : SegReg) : Spelled (.sreg s) s.name.toList
  | imm {e : Expr} {parts : List Part} (sum : PartsOf none none e parts) :
      Spelled (.imm e) (partsText parts)
  | far {segment offset : Expr} {parts parts' : List Part}
      (first : PartsOf none none segment parts) (second : PartsOf none none offset parts') :
      Spelled (.far segment offset) (partsText parts ++ ':' :: partsText parts')
  | mem {m : MemoryRef} {parts : List Part} (sum : PartsOf m.base m.index m.disp parts) :
      Spelled (.mem m) (sizeText m.width ++ referenceText m.segment parts)

/-- A free name, and a constant whose magnitude has a literal. -/
structure Expr.Writable (e : Expr) : Prop where
  name : ∀ s ∈ e.symbol, FreeName s
  constant : e.value.natAbs ≤ 9223372036854775807

/-- Byte and word registers have names of their own. -/
def Operand.Writable : Operand → Prop
  | .reg r => r.width ≠ .dword ∧ r.id < 8
  | .sreg _ => True
  | .mem m => m.disp.Writable
  | .imm e => e.Writable
  | .far segment offset => segment.Writable ∧ offset.Writable

/-! ## Lines -/

/-- Items with a comma and a blank between them. -/
def itemsText : List (List Char) → List Char
  | [] => []
  | item :: rest => item ++ rest.flatMap fun item => ',' :: ' ' :: item

/-- A mnemonic and its operands. -/
def bodyText (word : List Char) : List (List Char) → List Char
  | [] => word
  | items => word ++ ' ' :: itemsText items

def lineText (label : Option String) (word : List Char) (items : List (List Char)) : List Char :=
  match label with
  | none => bodyText word items
  | some name => name.toList ++ ':' :: ' ' :: bodyText word items

/-! ## Every operand has a text -/

/-- The parts in the order base, index, name, constant. -/
theorem exists_partsOf (base : Option BaseReg) (index : Option IndexReg) (e : Expr) :
    ∃ parts, PartsOf base index e parts :=
  ⟨_, by simp, some e.value, rfl, List.Perm.refl _⟩

theorem Operand.exists_spelled (o : Operand) : ∃ text, o.Spelled text := by
  cases o with
  | reg r => exact ⟨_, .reg r⟩
  | sreg s => exact ⟨_, .sreg s⟩
  | mem m =>
      obtain ⟨parts, sum⟩ := exists_partsOf m.base m.index m.disp
      exact ⟨_, .mem sum⟩
  | imm e =>
      obtain ⟨parts, sum⟩ := exists_partsOf none none e
      exact ⟨_, .imm sum⟩
  | far segment offset =>
      obtain ⟨parts, first⟩ := exists_partsOf none none segment
      obtain ⟨parts', second⟩ := exists_partsOf none none offset
      exact ⟨_, .far first second⟩

theorem exists_spelled_items (operands : List Operand) :
    ∃ texts, List.Forall₂ Operand.Spelled operands texts := by
  induction operands with
  | nil => exact ⟨[], .nil⟩
  | cons o rest ih =>
      obtain ⟨text, spelled⟩ := o.exists_spelled
      obtain ⟨texts, others⟩ := ih
      exact ⟨text :: texts, .cons spelled others⟩

end Asm86.Source
