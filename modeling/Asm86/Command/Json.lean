/-
# Asm86.Command.Json -- reading JSON documents

A settings file is a JSON document.  `Json.parse` accepts exactly the documents of the
format: blanks are space, tab, line feed and carriage return, numbers have no leading
zeros and no plus sign, strings hold no control characters, and nothing but blanks may
follow the value.

Only what settings need is kept: the value of a number that is written as a plain
natural, and the names of object fields.  Escapes can write half of a surrogate pair, which
is no character.  A string that holds one alone has the form of a string, but no text; a
field with such a name is kept without it.
-/

namespace Asm86.Command

set_option autoImplicit false

inductive Json where
  | null
  | bool (b : Bool)
  | natural (n : Nat)
  /-- A number with a sign, a fraction or an exponent. -/
  | number
  | string
  | array (items : List Json)
  /-- Values by name, where a name that is no text is missing. -/
  | object (fields : List (Option String × Json))

namespace Json

def isSpace (c : Char) : Bool := c == ' ' || c == '\t' || c == '\n' || c == '\r'

def skip (s : List Char) : List Char := s.dropWhile isSpace

/-- What follows a fixed word. -/
def word? : List Char → List Char → Option (List Char)
  | [], s => some s
  | c :: cs, d :: ds => if c == d then word? cs ds else none
  | _ :: _, [] => none

/-! ## Strings -/

def hexValue? (c : Char) : Option Nat :=
  if '0' ≤ c ∧ c ≤ '9' then some (c.toNat - 48)
  else if 'a' ≤ c ∧ c ≤ 'f' then some (c.toNat - 87)
  else if 'A' ≤ c ∧ c ≤ 'F' then some (c.toNat - 55)
  else none

def hexUnit? (a b c d : Char) : Option Nat := do
  let a ← hexValue? a
  let b ← hexValue? b
  let c ← hexValue? c
  let d ← hexValue? d
  return ((a * 16 + b) * 16 + c) * 16 + d

/-- The character of an escape with one letter. -/
def shortEscape? (c : Char) : Option Char :=
  if c == '\x22' || c == '\\' || c == '/' then some c
  else if c == 'b' then some '\x08'
  else if c == 'f' then some '\x0c'
  else if c == 'n' then some '\n'
  else if c == 'r' then some '\r'
  else if c == 't' then some '\t'
  else none

/-- The 16-bit units and characters of a string up to its closing quote, and the rest. -/
def units? : List Char → Option (List (Nat ⊕ Char) × List Char)
  | [] => none
  | '\\' :: 'u' :: a :: b :: c :: d :: rest => do
      let unit ← hexUnit? a b c d
      let (units, rest) ← units? rest
      return (.inl unit :: units, rest)
  | '\\' :: c :: rest => do
      let escaped ← shortEscape? c
      let (units, rest) ← units? rest
      return (.inr escaped :: units, rest)
  | c :: rest =>
      if c == '\x22' then some ([], rest)
      else if c.toNat < 32 || c == '\\' then none
      else do
        let (units, rest) ← units? rest
        return (.inr c :: units, rest)

/-- The text of some units; none when half of a surrogate pair stands alone. -/
def textOfUnits? : List (Nat ⊕ Char) → Option (List Char)
  | [] => some []
  | .inr c :: rest => (textOfUnits? rest).map (c :: ·)
  | .inl high :: .inl low :: rest =>
      if 0xD800 ≤ high ∧ high < 0xDC00 then
        if 0xDC00 ≤ low ∧ low < 0xE000 then
          let code := 0x10000 + (high - 0xD800) * 1024 + (low - 0xDC00)
          (textOfUnits? rest).map (Char.ofNat code :: ·)
        else none
      else if 0xDC00 ≤ high ∧ high < 0xE000 then none
      else (textOfUnits? (.inl low :: rest)).map (Char.ofNat high :: ·)
  | .inl unit :: rest =>
      if 0xD800 ≤ unit ∧ unit < 0xE000 then none
      else (textOfUnits? rest).map (Char.ofNat unit :: ·)

/-! ## Numbers -/

/-- A fraction, if there is one: at least one digit after a point. -/
def fraction? : List Char → Option (Bool × List Char)
  | '.' :: rest =>
      if (rest.takeWhile Char.isDigit).isEmpty then none
      else some (true, rest.dropWhile Char.isDigit)
  | s => some (false, s)

def isExponentMark (c : Char) : Bool := c == 'e' || c == 'E'

def dropSign : List Char → List Char
  | '+' :: rest => rest
  | '-' :: rest => rest
  | s => s

/-- An exponent, if there is one: at least one digit after the mark and a sign. -/
def exponent? : List Char → Option (Bool × List Char)
  | [] => some (false, [])
  | c :: rest =>
      if isExponentMark c then
        let digits := dropSign rest
        if (digits.takeWhile Char.isDigit).isEmpty then none
        else some (true, digits.dropWhile Char.isDigit)
      else some (false, c :: rest)

/-- The digits of an integer part: a lone zero, or no zero in front. -/
def digits? (s : List Char) : Option (List Char × List Char) :=
  match s.takeWhile Char.isDigit with
  | [] => none
  | ['0'] => some (['0'], s.dropWhile Char.isDigit)
  | '0' :: _ => none
  | ds => some (ds, s.dropWhile Char.isDigit)

def natOf (digits : List Char) : Nat := digits.foldl (fun n c => n * 10 + (c.toNat - 48)) 0

def number? (s : List Char) : Option (Json × List Char) := do
  let negative := s.head? == some '-'
  let (digits, rest) ← digits? (if negative then s.drop 1 else s)
  let (hasFraction, rest) ← fraction? rest
  let (hasExponent, rest) ← exponent? rest
  if negative || hasFraction || hasExponent then return (.number, rest)
  else return (.natural (natOf digits), rest)

/-! ## Values -/

mutual

/-- The value at the front of `s`, which is at most `fuel` values deep. -/
def value? (fuel : Nat) (s : List Char) : Option (Json × List Char) :=
  match fuel with
  | 0 => none
  | fuel + 1 =>
      match skip s with
      | 'n' :: rest => (word? ['u', 'l', 'l'] rest).map (.null, ·)
      | 't' :: rest => (word? ['r', 'u', 'e'] rest).map (.bool true, ·)
      | 'f' :: rest => (word? ['a', 'l', 's', 'e'] rest).map (.bool false, ·)
      | '\x22' :: rest => (units? rest).map fun found => (.string, found.2)
      | '[' :: rest =>
          match skip rest with
          | ']' :: rest => some (.array [], rest)
          | _ => (items? fuel rest).map fun found => (.array found.1, found.2)
      | '\x7b' :: rest =>
          match skip rest with
          | '\x7d' :: rest => some (.object [], rest)
          | _ => (fields? fuel rest).map fun found => (.object found.1, found.2)
      | other => number? other

/-- One or more values up to a closing bracket. -/
def items? (fuel : Nat) (s : List Char) : Option (List Json × List Char) :=
  match fuel with
  | 0 => none
  | fuel + 1 => do
      let (first, rest) ← value? fuel s
      match skip rest with
      | ',' :: rest =>
          let (others, rest) ← items? fuel rest
          return (first :: others, rest)
      | ']' :: rest => return ([first], rest)
      | _ => none

/-- One or more named values up to a closing brace. -/
def fields? (fuel : Nat) (s : List Char) : Option (List (Option String × Json) × List Char) :=
  match fuel with
  | 0 => none
  | fuel + 1 =>
      match skip s with
      | '\x22' :: rest => do
          let (units, rest) ← units? rest
          let name := (textOfUnits? units).map String.ofList
          match skip rest with
          | ':' :: rest =>
              let (first, rest) ← value? fuel rest
              let field := (name, first)
              match skip rest with
              | ',' :: rest =>
                  let (others, rest) ← fields? fuel rest
                  return (field :: others, rest)
              | '\x7d' :: rest => return ([field], rest)
              | _ => none
          | _ => none
      | _ => none

end

/-- A whole document.  Each value, item and field takes up at least one character, so
twice the length of the text is deep enough. -/
def parse (text : String) : Option Json :=
  let s := text.toList
  match value? (2 * s.length + 1) s with
  | some (v, rest) => if (skip rest).isEmpty then some v else none
  | none => none

end Json

end Asm86.Command
