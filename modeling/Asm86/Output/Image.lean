/-
# Asm86.Output.Image -- an assembled image

The bytes of a program and the address of the first of them.  Addresses have 32 bits;
asking for one beyond them is an overflow.
-/
import Asm86.Bytes

namespace Asm86.Output

set_option autoImplicit false

/-- An address beyond 32 bits was needed. -/
inductive AddressError where
  | overflow
  deriving DecidableEq, Repr

structure Image where
  base : UInt32
  bytes : Array UInt8 := #[]
  deriving DecidableEq, Repr

namespace Image

/-- The image with more bytes at its end. -/
def append (i : Image) (bytes : List UInt8) : Image := { i with bytes := i.bytes ++ bytes }

/-- The address of the next byte. -/
def cursor (i : Image) : Except AddressError UInt32 :=
  if i.base.toNat + i.bytes.size < 4294967296 then .ok (i.base + UInt32.ofNat i.bytes.size)
  else .error .overflow

def byte? (i : Image) (address : UInt32) : Option UInt8 :=
  if i.base ≤ address then i.bytes[(address - i.base).toNat]? else none

/-- The word at an address; a low byte at the last address has no successor. -/
def word? (i : Image) (address : UInt32) : Except AddressError (Option UInt16) :=
  match i.byte? address with
  | none => .ok none
  | some low =>
      if address.toNat + 1 < 4294967296 then
        .ok ((i.byte? (address + 1)).map fun high => Bytes.toWord low high)
      else .error .overflow

end Image

end Asm86.Output
