/-
# Asm86.Source.Constants -- named constants of a source text

Before assembly a source is expanded: comments and trailing blanks go, and every
name that an earlier line defined is replaced by its value.  Exactly:

* `NAME = value` defines a nonempty run of name characters; `NAME EQU value` defines
  its first word, whatever its characters, when exactly one blank stands between the
  name and `EQU`.  The first form is tried first;
* a definition line comes out empty, so line numbers stay what they were;
* values are expanded by the definitions above them when they are defined;
* a value must not be empty, and a name is defined once; of the two faults the empty
  value is reported;
* outside quotes a maximal run of name characters is replaced as a whole, and a run
  that starts with a digit is never replaced.
-/
import Asm86.Text.Blank
import Asm86.Text.Cut
import Asm86.Text.Lines
import Asm86.Text.Name
import Asm86.Text.Quoted

namespace Asm86.Source

open Asm86.Text

set_option autoImplicit false

/-- A definition that cannot be taken, with the number of its line. -/
inductive ConstantError where
  | redefined (name : String) (line : Nat)
  | missingValue (name : String) (line : Nat)
  deriving DecidableEq, Repr

def ConstantError.message : ConstantError → String
  | .redefined name line => s!"line {line}: {name} is already defined"
  | .missingValue name line => s!"line {line}: {name} has no value"

/-- Names with their values. -/
abbrev Constants := List (List Char × List Char)

namespace Constants

/-! ## Replacing names -/

/-- The replacement of one run of name characters. -/
def expandWord (defs : Constants) : List Char → List Char
  | [] => []
  | c :: rest => if c.isDigit then c :: rest else (defs.lookup (c :: rest)).getD (c :: rest)

/-- Expand a line read from inside of `quote`, with the name characters `word` just
read and not yet written. -/
def substituteFrom (defs : Constants) (quote : Option Char) (word : List Char) :
    List Char → List Char
  | [] => defs.expandWord word
  | c :: rest =>
      if quote.isNone && isNameChar c then defs.substituteFrom none (word ++ [c]) rest
      else defs.expandWord word ++ c :: defs.substituteFrom (quoteAfter isQuote quote c) [] rest

/-- A line with its names replaced. -/
def substitute (defs : Constants) (line : List Char) : List Char :=
  defs.substituteFrom none [] line

/-! ## Definitions -/

/-- `NAME = value`. -/
def assignment? (line : List Char) : Option (List Char × List Char) :=
  match cutAt? '=' line with
  | some (before, after) =>
      let name := trim before
      if !name.isEmpty && name.all isNameChar then some (name, trim after) else none
  | none => none

/-- `NAME EQU value`. -/
def equate? (line : List Char) : Option (List Char × List Char) :=
  match line.dropWhile (fun c => !isBlank c) with
  | [] => none
  | _ :: rest =>
      if isKeyword "EQU" (rest.takeWhile fun c => !isBlank c) then
        some (line.takeWhile (fun c => !isBlank c), trim (rest.dropWhile fun c => !isBlank c))
      else none

/-- The name and the value that a line without comment defines. -/
def definition? (line : List Char) : Option (List Char × List Char) :=
  (assignment? (trim line)).or (equate? (trim line))

/-! ## Whole sources -/

/-- Expand the lines from the one with the given number on. -/
def expandLines (defs : Constants) (number : Nat) :
    List (List Char) → Except ConstantError (List (List Char))
  | [] => .ok []
  | raw :: rest =>
      let line := trimEnd (stripComment raw)
      match definition? line with
      | some (name, value) =>
          if value.isEmpty then .error (.missingValue (String.ofList name) number)
          else if (defs.lookup name).isSome then .error (.redefined (String.ofList name) number)
          else do
            let defs' : Constants := (name, defs.substitute value) :: defs
            let expanded ← defs'.expandLines (number + 1) rest
            return [] :: expanded
      | none => do
          let expanded ← defs.expandLines (number + 1) rest
          return defs.substitute line :: expanded

/-- Expand a source; every line of the result ends with a line feed. -/
def expand (source : String) : Except ConstantError String := do
  let expanded ← expandLines [] 1 (lines source.toList)
  return String.ofList (expanded.flatMap fun line => line ++ ['\n'])

end Constants

end Asm86.Source
