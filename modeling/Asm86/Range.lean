/-
# Asm86.Range -- the integer ranges of the assembler

Expressions are computed in signed 64-bit arithmetic whose overflow is an error, so
their values are integers together with the test `signed64`.  The other ranges say
which values a field of the machine code can hold: a byte or word field takes both
the signed and the unsigned reading of its bits.
-/

namespace Asm86.Range

set_option autoImplicit false

def signed64 (v : Int) : Bool := -9223372036854775808 ≤ v && v ≤ 9223372036854775807

def signed16 (v : Int) : Bool := -32768 ≤ v && v ≤ 32767

def signed8 (v : Int) : Bool := -128 ≤ v && v ≤ 127

/-- A word field: signed or unsigned 16-bit. -/
def word (v : Int) : Bool := -32768 ≤ v && v ≤ 65535

/-- A byte field: signed or unsigned 8-bit. -/
def byte (v : Int) : Bool := -128 ≤ v && v ≤ 255

/-- `v` itself when it is inside 64 bits. -/
def checked64 (v : Int) : Option Int := if signed64 v then some v else none

end Asm86.Range
