/-
# Asm86.Bytes -- words and texts as bytes

Machine code and the symbol block write words of 16 and 32 bits with the low byte
first, and texts in UTF-8.
-/

namespace Asm86.Bytes

set_option autoImplicit false

def ofWord (w : UInt16) : List UInt8 := [w.toUInt8, (w >>> 8).toUInt8]

def ofDword (d : UInt32) : List UInt8 :=
  [d.toUInt8, (d >>> 8).toUInt8, (d >>> 16).toUInt8, (d >>> 24).toUInt8]

def toWord (low high : UInt8) : UInt16 := low.toUInt16 ||| (high.toUInt16 <<< 8)

def toDword (b0 b1 b2 b3 : UInt8) : UInt32 :=
  b0.toUInt32 ||| (b1.toUInt32 <<< 8) ||| (b2.toUInt32 <<< 16) ||| (b3.toUInt32 <<< 24)

/-- The UTF-8 form of a text. -/
def ofString (s : String) : List UInt8 := s.toUTF8.data.toList

/-- The text with the given UTF-8 form. -/
def toString? (bytes : List UInt8) : Option String := String.fromUTF8? ⟨bytes.toArray⟩

@[simp] theorem length_ofWord (w : UInt16) : (ofWord w).length = 2 := rfl

@[simp] theorem length_ofDword (d : UInt32) : (ofDword d).length = 4 := rfl

end Asm86.Bytes
