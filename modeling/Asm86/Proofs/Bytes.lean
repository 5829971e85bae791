/-
# Asm86.Proofs.Bytes -- words and texts survive their bytes

The value of a word read from bytes is the sum of its bytes times powers of 256
(`toNat_toWord`, `toNat_toDword`).  Reading what was written gives the word or text back, and
what was read is written as the same bytes.
-/
import Asm86.Bytes

namespace Asm86.Bytes

set_option autoImplicit false

/-! ## Words -/

theorem toNat_toWord (low high : UInt8) :
    (toWord low high).toNat = low.toNat + 256 * high.toNat := by
  have lowBound : low.toNat < 2 ^ 8 := low.toNat_lt
  have highBound : high.toNat < 2 ^ 8 := high.toNat_lt
  have shifted : high.toNat <<< 8 % 65536 = high.toNat <<< 8 :=
    Nat.mod_eq_of_lt (by rw [Nat.shiftLeft_eq]; omega)
  have value : (toWord low high).toNat = low.toNat ||| high.toNat <<< 8 % 65536 := by
    simp [toWord]
  rw [value, shifted, Nat.or_comm, ← Nat.shiftLeft_add_eq_or_of_lt lowBound, Nat.shiftLeft_eq]
  omega

theorem toNat_toDword (b0 b1 b2 b3 : UInt8) :
    (toDword b0 b1 b2 b3).toNat =
      b0.toNat + 256 * b1.toNat + 65536 * b2.toNat + 16777216 * b3.toNat := by
  have h0 : b0.toNat < 2 ^ 8 := b0.toNat_lt
  have h1 : b1.toNat < 2 ^ 8 := b1.toNat_lt
  have h2 : b2.toNat < 2 ^ 8 := b2.toNat_lt
  have h3 : b3.toNat < 2 ^ 8 := b3.toNat_lt
  have value : (toDword b0 b1 b2 b3).toNat =
      b0.toNat ||| b1.toNat <<< 8 % 4294967296 ||| b2.toNat <<< 16 % 4294967296 |||
        b3.toNat <<< 24 % 4294967296 := by
    simp [toDword]
  rw [value, Nat.mod_eq_of_lt (a := b1.toNat <<< 8) (by rw [Nat.shiftLeft_eq]; omega),
    Nat.mod_eq_of_lt (a := b2.toNat <<< 16) (by rw [Nat.shiftLeft_eq]; omega),
    Nat.mod_eq_of_lt (a := b3.toNat <<< 24) (by rw [Nat.shiftLeft_eq]; omega)]
  -- Each byte lies below the shifted ones before it, so every `or` is a sum.
  rw [Nat.or_comm b0.toNat, ← Nat.shiftLeft_add_eq_or_of_lt h0, Nat.or_comm _ (b2.toNat <<< 16),
    ← Nat.shiftLeft_add_eq_or_of_lt (i := 16) (by rw [Nat.shiftLeft_eq]; omega),
    Nat.or_comm _ (b3.toNat <<< 24),
    ← Nat.shiftLeft_add_eq_or_of_lt (i := 24) (by simp only [Nat.shiftLeft_eq]; omega)]
  simp only [Nat.shiftLeft_eq]
  omega

@[simp] theorem toWord_ofWord (w : UInt16) : toWord w.toUInt8 (w >>> 8).toUInt8 = w := by
  have bound := w.toNat_lt
  apply UInt16.toNat_inj.1
  simp only [toNat_toWord, UInt16.toNat_toUInt8, UInt16.toNat_shiftRight, UInt16.reduceToNat,
    Nat.shiftRight_eq_div_pow, Nat.reduceMod, Nat.reducePow]
  omega

@[simp] theorem toDword_ofDword (d : UInt32) :
    toDword d.toUInt8 (d >>> 8).toUInt8 (d >>> 16).toUInt8 (d >>> 24).toUInt8 = d := by
  have bound := d.toNat_lt
  apply UInt32.toNat_inj.1
  simp only [toNat_toDword, UInt32.toNat_toUInt8, UInt32.toNat_shiftRight, UInt32.reduceToNat,
    Nat.shiftRight_eq_div_pow, Nat.reduceMod, Nat.reducePow]
  omega

theorem ofWord_toWord (low high : UInt8) : ofWord (toWord low high) = [low, high] := by
  have lowBound := low.toNat_lt
  have highBound := high.toNat_lt
  simp only [ofWord, List.cons.injEq, and_true]
  constructor
  · apply UInt8.toNat_inj.1
    rw [UInt16.toNat_toUInt8, toNat_toWord]
    omega
  · apply UInt8.toNat_inj.1
    simp only [UInt16.toNat_toUInt8, UInt16.toNat_shiftRight, toNat_toWord, UInt16.reduceToNat,
      Nat.shiftRight_eq_div_pow, Nat.reduceMod, Nat.reducePow]
    omega

theorem ofDword_toDword (b0 b1 b2 b3 : UInt8) : ofDword (toDword b0 b1 b2 b3) = [b0, b1, b2, b3] := by
  have h0 := b0.toNat_lt
  have h1 := b1.toNat_lt
  have h2 := b2.toNat_lt
  have h3 := b3.toNat_lt
  simp only [ofDword, List.cons.injEq, and_true]
  refine ⟨?_, ?_, ?_, ?_⟩
  all_goals
    apply UInt8.toNat_inj.1
    simp only [UInt32.toNat_toUInt8, UInt32.toNat_shiftRight, toNat_toDword, UInt32.reduceToNat,
      Nat.shiftRight_eq_div_pow, Nat.reduceMod, Nat.reducePow]
    omega

/-! ## Texts -/

@[simp] theorem toString?_ofString (s : String) : toString? (ofString s) = some s := by
  have valid : ByteArray.IsValidUTF8 ⟨(ofString s).toArray⟩ := by
    simpa [ofString] using s.isValidUTF8
  simp only [toString?, String.fromUTF8?, valid, ↓reduceDIte, Option.some.injEq]
  apply String.toByteArray_inj.1
  simp [String.fromUTF8, ofString]

theorem ofString_of_toString? {bytes : List UInt8} {s : String} (read : toString? bytes = some s) :
    ofString s = bytes := by
  unfold toString? String.fromUTF8? at read
  split at read
  · cases read
    rfl
  · cases read

end Asm86.Bytes
