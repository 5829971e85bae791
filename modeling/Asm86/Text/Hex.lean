/-
# Asm86.Text.Hex -- numbers written in base sixteen

Listings and instruction texts show upper-case digits, messages lower-case ones
after `0x`.  A width is the least number of digits: shorter numbers get zeros in
front, longer ones are shown whole.
-/

namespace Asm86.Text

set_option autoImplicit false

/-- `s` filled up on the left with `c` to `width` characters. -/
def padLeft (width : Nat) (c : Char) (s : List Char) : List Char :=
  List.replicate (width - s.length) c ++ s

/-- `s` filled up on the right with `c` to `width` characters. -/
def padRight (width : Nat) (c : Char) (s : List Char) : List Char :=
  s ++ List.replicate (width - s.length) c

def hexDigits (width n : Nat) : List Char := padLeft width '0' (Nat.toDigits 16 n)

/-- At least `width` upper-case digits. -/
def hexUpper (width n : Nat) : String := String.ofList ((hexDigits width n).map Char.toUpper)

/-- `0x` and at least `width` lower-case digits. -/
def hexLower (width n : Nat) : String := String.ofList ('0' :: 'x' :: hexDigits width n)

end Asm86.Text
