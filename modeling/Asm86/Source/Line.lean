/-
# Asm86.Source.Line -- one source line

A line is an optional label and a statement; a comment is dropped first.  A label is an
identifier before the first colon, unless it names a segment register.  Without such a
label, the second word may make the line a segment bracket (`NAME SEGMENT`, `NAME ENDS`,
where the name is any word) or labelled data (`NAME DB ...`).

A repeat or lock word before an instruction is kept as an operation of its own.  Of
several of them only the first is.

Data items are separated by commas outside quotes and brackets.  An item is, tried in
this order: `?`, which stands for zero; a quoted string, when it is longer than three
bytes or in double quotes, so that a single quoted character counts as a number; a
repetition `count DUP (value)`; an expression.
-/
import Asm86.Bytes
import Asm86.Machine.Operation
import Asm86.Source.Operand

namespace Asm86.Source

open Asm86.Text
open Asm86.Machine

set_option autoImplicit false

inductive DataItem where
  | value (e : Expr)
  | string (bytes : List UInt8)
  | dup (count : Nat) (value : Expr)
  deriving DecidableEq, Repr

inductive Statement where
  | empty
  | segmentStart (name : String)
  | segmentEnd (name : String)
  /-- A directive that the passes need nothing of. -/
  | ignored
  | data (width : Width) (items : List DataItem)
  | instruction (lead : Option Operation) (op : Operation) (operands : List Operand)
  deriving DecidableEq, Repr

structure Line where
  label : Option String
  statement : Statement
  deriving DecidableEq, Repr

/-! ## Comma-separated items -/

/-- Put `c` in front of the first item. -/
def onFirstItem (c : Char) : List (List Char) → List (List Char)
  | [] => []
  | item :: rest => (c :: item) :: rest

/-- The bracket depth after `c`; it may fall below zero. -/
def depthAfter (quote : Option Char) (depth : Int) (c : Char) : Int :=
  if quote.isSome then depth
  else if c == '[' || c == '(' then depth + 1
  else if c == ']' || c == ')' then depth - 1
  else depth

/-- Cut at the commas outside quotes at bracket depth zero. -/
def cutItems (quote : Option Char) (depth : Int) : List Char → List (List Char)
  | [] => [[]]
  | c :: rest =>
      if quote.isNone && c == ',' && depth == 0 then [] :: cutItems none depth rest
      else onFirstItem c (cutItems (quoteAfter isQuote quote c) (depthAfter quote depth c) rest)

/-- The items of a list, trimmed; a blank text has none. -/
def splitItems (s : List Char) : List (List Char) :=
  match cutItems none 0 s with
  | [only] => if allBlank only then [] else [trim only]
  | items => items.map trim

/-! ## Data -/

/-- The bytes between the quotes of a string. -/
def quotedBytes? (s : List Char) : Option (List UInt8) :=
  match s with
  | q :: c :: rest =>
      if isQuote q && (c :: rest).getLast? == some q then
        some (Bytes.ofString (String.ofList (c :: rest).dropLast))
      else none
  | _ => none

/-- What stands before and after the first ` DUP`, in either case. -/
def cutDup? : List Char → Option (List Char × List Char)
  | [] => none
  | c :: rest =>
      if upper ((c :: rest).take 4) == [' ', 'D', 'U', 'P'] then some ([], (c :: rest).drop 4)
      else (cutDup? rest).map fun parts => (c :: parts.1, parts.2)

/-- The text inside one pair of parentheses. -/
def parenthesized? : List Char → Option (List Char)
  | '(' :: rest => if rest.getLast? = some ')' then some rest.dropLast else none
  | _ => none

/-- The value of a repetition; `?` is zero. -/
def dupValue (s : List Char) : Except ParseError Expr :=
  if s == ['?'] then .ok (.ofValue 0) else Expr.parse s

def parseDup (item before after : List Char) : Except ParseError DataItem :=
  match literal? before with
  | some n =>
      if 0 ≤ n ∧ n ≤ 65535 then
        match parenthesized? (trim after) with
        | some inner => (dupValue (trim inner)).map (.dup n.toNat)
        | none => .error (.badDup (String.ofList item))
      else .error (.badDupCount (String.ofList item))
  | none => .error (.badDupCount (String.ofList item))

/-- An item that is not a string. -/
def parseNumericItem (item : List Char) : Except ParseError DataItem :=
  match cutDup? item with
  | some (before, after) => parseDup item before after
  | none => (Expr.parse item).map .value

/-- A quoted item that is taken as a string and not as a number. -/
def stringItem? (item : List Char) : Option (List UInt8) :=
  if 3 < byteLength item || item.head? == some '\x22' then quotedBytes? item else none

def parseItem (item : List Char) : Except ParseError DataItem :=
  if item == ['?'] then .ok (.value (.ofValue 0))
  else
    match stringItem? item with
    | some bytes => .ok (.string bytes)
    | none => parseNumericItem item

def parseData (width : Width) (s : List Char) : Except ParseError Statement :=
  match splitItems s with
  | [] => .error .noData
  | items => (items.mapM parseItem).map (.data width)

def dataWidth? (word : List Char) : Option Width :=
  if isKeyword "DB" word then some .byte
  else if isKeyword "DW" word then some .word
  else none

/-! ## Instructions -/

/-- Operations that may stand before another one on the same line. -/
def isLead : Operation → Bool
  | .rep | .repne | .lock => true
  | _ => false

/-- The statement with `op` as its lead, in place of the one it has. -/
def Statement.led (op : Operation) : Statement → Statement
  | .instruction _ inner operands => .instruction (some op) inner operands
  | other => other

def parseInstruction (word rest : List Char) : Except ParseError Statement :=
  match Operation.ofMnemonic? word with
  | none => .error (.unknownMnemonic (String.ofList word))
  | some op =>
      if inner : isLead op = true ∧ rest ≠ [] then
        have := length_splitWord_lt inner.2
        (parseInstruction (splitWord rest).1 (splitWord rest).2).map (Statement.led op)
      else ((splitItems rest).mapM Operand.parse).map (.instruction none op)
termination_by rest.length

/-! ## Lines -/

/-- A leading `name:` and what follows it. -/
def splitLabel (s : List Char) : Option String × List Char :=
  match cutAt? ':' s with
  | some (before, after) =>
      let name := trim before
      if isIdentifier name && (SegReg.ofName? name).isNone then
        (some (String.ofList name), trim after)
      else (none, s)
  | none => (none, s)

/-- A statement that its first word decides. -/
def parseStatement (first rest : List Char) : Except ParseError Statement :=
  if isKeyword "ASSUME" first || isKeyword "END" first then .ok .ignored
  else
    match dataWidth? first with
    | some width => parseData width rest
    | none => parseInstruction first rest

/-- A line that its second word decides: a segment bracket or labelled data. -/
def parseNamed? (first rest : List Char) : Option (Except ParseError Line) :=
  let (second, tail) := splitWord rest
  let name := String.ofList first
  if isKeyword "SEGMENT" second then some (.ok ⟨none, .segmentStart name⟩)
  else if isKeyword "ENDS" second then some (.ok ⟨none, .segmentEnd name⟩)
  else
    match dataWidth? second with
    | some width =>
        if isIdentifier first then some ((parseData width tail).map (⟨some name, ·⟩))
        else some (.error (.badLabel name))
    | none => none

/-- A line after its label. -/
def parseBody (label : Option String) (s : List Char) : Except ParseError Line :=
  if s.isEmpty then .ok ⟨label, .empty⟩
  else
    let (first, rest) := splitWord s
    match (if label.isNone then parseNamed? first rest else none) with
    | some line => line
    | none => (parseStatement first rest).map (⟨label, ·⟩)

def Line.parse (line : List Char) : Except ParseError Line :=
  let (label, body) := splitLabel (trim (stripComment line))
  parseBody label body

end Asm86.Source
