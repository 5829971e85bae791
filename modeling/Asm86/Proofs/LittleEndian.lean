/-
# Asm86.Proofs.LittleEndian -- numbers as bytes, low byte first

`littleEndian n v` is what `n` bytes keep of a number, and `signedValue` reads bytes in
two's complement.  Reading what was kept gives the number modulo 256^n, in the signed range
(`signedValue_littleEndian`).  The words and bytes that the encoding works with are such
bytes of the numbers that they came from.
-/
import Asm86.Bytes
import Mathlib.Algebra.Group.Nat.Defs

namespace Asm86.Bytes

set_option autoImplicit false

/-- The lowest `n` bytes of a number, low byte first. -/
def littleEndian : Nat → Int → List UInt8
  | 0, _ => []
  | n + 1, v => UInt8.ofNat (v % 256).toNat :: littleEndian n (v / 256)

/-- The number that bytes stand for, low byte first. -/
def unsignedValue : List UInt8 → Nat
  | [] => 0
  | b :: rest => b.toNat + 256 * unsignedValue rest

/-- The number that bytes stand for in two's complement. -/
def signedValue (bytes : List UInt8) : Int := (unsignedValue bytes : Int).bmod (256 ^ bytes.length)

@[simp] theorem length_littleEndian (n : Nat) (v : Int) : (littleEndian n v).length = n := by
  induction n generalizing v with
  | zero => rfl
  | succ n ih => simp [littleEndian, ih]

theorem unsignedValue_littleEndian (n : Nat) (v : Int) :
    (unsignedValue (littleEndian n v) : Int) = v % (256 ^ n : Nat) := by
  induction n generalizing v with
  | zero =>
      show (0 : Int) = v % 1
      exact (Int.emod_one v).symm
  | succ n ih =>
      have low : ((UInt8.ofNat (v % 256).toNat).toNat : Int) = v % 256 := by
        rw [UInt8.toNat_ofNat_of_lt' (show (v % 256).toNat < 256 by omega)]
        omega
      have high : v / (256 * (256 ^ n : Nat) : Nat) = v / 256 / (256 ^ n : Nat) := by
        rw [Int.natCast_mul, Int.ediv_ediv_of_nonneg (by decide)]
        rfl
      have split : v % (256 * (256 ^ n : Nat) : Nat) = v % 256 + 256 * (v / 256 % (256 ^ n : Nat)) := by
        rw [Int.emod_def v, high, Int.emod_def (v / 256), Int.natCast_mul, Int.mul_assoc]
        omega
      rw [littleEndian, unsignedValue, Int.natCast_add, Int.natCast_mul, ih, low, Nat.pow_succ,
        Nat.mul_comm, split]
      rfl

theorem signedValue_littleEndian (n : Nat) (v : Int) :
    signedValue (littleEndian n v) = v.bmod (256 ^ n) := by
  rw [signedValue, unsignedValue_littleEndian, length_littleEndian, Int.emod_bmod]

/-- A number in the signed range is read back. -/
theorem signedValue_eq {n : Nat} {v : Int} (low : -((256 ^ n : Nat) / 2 : Int) ≤ v)
    (high : v < ((256 ^ n : Nat) + 1 : Int) / 2) : signedValue (littleEndian n v) = v := by
  rw [signedValue_littleEndian, Int.bmod_eq_of_le low high]

/-! ## Bytes and words -/

theorem littleEndian_byte (v : Int) : littleEndian 1 v = [UInt8.ofInt v] := rfl

theorem toNat_ofInt (v : Int) : (Int16.ofInt v).toUInt16.toNat = (v % 65536).toNat := by
  simp [Int16.ofInt, UInt16.toNat, BitVec.toNat_ofInt]

theorem littleEndian_low (v : Int) : littleEndian 1 v = [(Int16.ofInt v).toUInt16.toUInt8] := by
  have whole := toNat_ofInt v
  simp only [littleEndian, List.cons.injEq, and_true]
  apply UInt8.toNat_inj.1
  simp only [UInt16.toNat_toUInt8, whole, UInt8.toNat_ofNat']
  omega

theorem littleEndian_word (v : Int) : littleEndian 2 v = ofWord (Int16.ofInt v).toUInt16 := by
  have whole := toNat_ofInt v
  simp only [littleEndian, ofWord, List.cons.injEq, and_true]
  constructor <;> apply UInt8.toNat_inj.1
  · simp only [UInt16.toNat_toUInt8, whole, UInt8.toNat_ofNat']
    omega
  · simp only [UInt16.toNat_toUInt8, UInt16.toNat_shiftRight, UInt16.reduceToNat, whole,
      Nat.shiftRight_eq_div_pow, Nat.reduceMod, Nat.reducePow, UInt8.toNat_ofNat']
    omega

theorem littleEndian_of_byte (b : UInt8) :
    littleEndian 1 b.toNat = [b] ∧ littleEndian 2 b.toNat = ofWord b.toUInt16 := by
  have bound := b.toNat_lt
  refine ⟨?_, ?_⟩
  · simp only [littleEndian, List.cons.injEq, and_true]
    apply UInt8.toNat_inj.1
    rw [UInt8.toNat_ofNat_of_lt' (show _ < 256 by omega)]
    omega
  · have word : (Int16.ofInt b.toNat).toUInt16 = b.toUInt16 := by
      apply UInt16.toNat_inj.1
      rw [toNat_ofInt, UInt8.toNat_toUInt16]
      omega
    rw [littleEndian_word, word]

theorem ofInt_eq (v : Int) : UInt16.ofInt v = (Int16.ofInt v).toUInt16 := by
  apply UInt16.toNat_inj.1
  rw [toNat_ofInt, UInt16.ofInt, UInt16.toNat_ofNat']
  omega

end Asm86.Bytes
