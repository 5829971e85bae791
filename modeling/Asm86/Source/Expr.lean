/-
# Asm86.Source.Expr -- expressions: a constant and at most one name

An expression is a sum of signed terms, after an optional keyword `OFFSET`.  A term is
a number literal, which is added to the constant part, or a name, which may stand only
once and not be subtracted.

The text is cut at every `+` and `-` outside single quotes; double quotes do not protect
a sign.  A piece with nothing in it is passed over, so signs may be doubled, except that
two minus signs in a row are refused, and so is an expression that ends in a sign.
`Terms` keeps the terms found before such a fault, because a fault in one of those terms
comes first.
-/
import Asm86.Range
import Asm86.Source.Error
import Asm86.Text.Numeral

namespace Asm86.Source

open Asm86.Text

set_option autoImplicit false

structure Expr where
  value : Int := 0
  symbol : Option String := none
  deriving DecidableEq, Repr

/-- The text after a leading `keyword`. -/
def stripKeyword? (keyword : String) (s : List Char) : Option (List Char) :=
  let (word, rest) := splitWord s
  if isKeyword keyword word then some rest else none

/-! ## Terms -/

/-- A piece of an expression and whether a minus sign stands before it. -/
structure Term where
  negative : Bool
  text : List Char
  deriving DecidableEq, Repr

/-- Put `c` in front of the first piece. -/
def Term.onFirst (c : Char) : List Term → List Term
  | [] => []
  | piece :: rest => { piece with text := c :: piece.text } :: rest

/-- The pieces between signs, the first under the sign `negative`. -/
def pieces (quote : Option Char) (negative : Bool) : List Char → List Term
  | [] => [⟨negative, []⟩]
  | c :: rest =>
      if quote.isNone && (c == '+' || c == '-') then
        ⟨negative, []⟩ :: pieces none (c == '-') rest
      else Term.onFirst c (pieces (quoteAfter isSingleQuote quote c) negative rest)

/-- The terms of an expression, and whether it ends well after the last of them. -/
structure Terms where
  terms : List Term
  complete : Bool
  deriving DecidableEq, Repr

namespace Terms

/-- Drop the empty pieces that may stand between two signs. -/
def ofPieces : List Term → Terms
  | [] => ⟨[], false⟩
  | [last] => if allBlank last.text then ⟨[], false⟩ else ⟨[⟨last.negative, trim last.text⟩], true⟩
  | piece :: next :: rest =>
      if allBlank piece.text then
        if piece.negative && next.negative then ⟨[], false⟩ else ofPieces (next :: rest)
      else
        let others := ofPieces (next :: rest)
        ⟨⟨piece.negative, trim piece.text⟩ :: others.terms, others.complete⟩

def ofText (s : List Char) : Terms := ofPieces (pieces none false s)

/-- Take in the terms of `s` one after the other. -/
def foldText {α : Type} (step : α → Term → Except ParseError α) (start : α) (s : List Char) :
    Except ParseError α := do
  let found := ofText s
  let last ← found.terms.foldlM step start
  if found.complete then return last else throw (.badExpression (String.ofList s))

end Terms

/-! ## Expressions -/

namespace Expr

def ofValue (value : Int) : Expr := { value }

/-- Add a term to an expression. -/
def addTerm (e : Expr) (t : Term) : Except ParseError Expr :=
  match literal? t.text with
  | some v =>
      let signed := if t.negative then -v else v
      match (Range.checked64 signed).bind fun v => Range.checked64 (e.value + v) with
      | some value => .ok { e with value }
      | none => .error (.constantOverflow (String.ofList t.text))
  | none =>
      if isIdentifier t.text && !t.negative && e.symbol.isNone then
        .ok { e with symbol := some (String.ofList t.text) }
      else .error (.badTerm (String.ofList t.text))

def parse (s : List Char) : Except ParseError Expr :=
  let body := trim s
  Terms.foldText addTerm {} ((stripKeyword? "OFFSET" body).getD body)

end Expr

end Asm86.Source
