/-
# Asm86.Text.Cut -- cutting a text at one of its characters

`cutAt? c s` divides `s` at the first `c`, which is in neither part.
-/

namespace Asm86.Text

set_option autoImplicit false

/-- What stands before and after the first `c`. -/
def cutAt? (c : Char) : List Char → Option (List Char × List Char)
  | [] => none
  | d :: rest =>
      if d == c then some ([], rest)
      else (cutAt? c rest).map fun parts => (d :: parts.1, parts.2)

/-- The number of bytes of the UTF-8 form. -/
def byteLength (s : List Char) : Nat := s.foldr (fun c bytes => c.utf8Size + bytes) 0

end Asm86.Text
