/-
# Asm86.Proofs.Symbols.Canonical -- every snapshot has one block

Reading is strict enough to be undone by writing.  All bytes of a field behind its name are
zeros (`decodeName_ok`), so a record that was read is written as the bytes it was read from
(`decodeRecord_ok`), and so are the records of a block together (`decodeRecords_ok`).  The
length of a block leaves no room for anything else.

A block can therefore be read exactly when it was written from a snapshot that is
`Transferable`, and no two blocks hold the same snapshot (`block_canonical`).
-/
import Asm86.Proofs.Symbols.Block
import Mathlib.Data.List.TakeWhile

namespace Asm86.Symbols

open Asm86.Checked

set_option autoImplicit false

/-! ## Names -/

/-- A name that was read from a field fills the field as it is. -/
theorem decodeName_ok {index : Nat} {field : List UInt8} {name : String}
    (size : field.length = nameFieldSize) (read : decodeName index field = .ok name) :
    FitsField name ∧ nameField name = field := by
  unfold decodeName at read
  simp only at read
  split at read
  · cases read
  rename_i accepted
  simp only [Bool.or_eq_true, not_or, Bool.not_eq_true, List.isEmpty_eq_false_iff] at accepted
  obtain ⟨nonempty, zeros⟩ := accepted
  split at read
  case h_2 => cases read
  rename_i text found
  cases read
  have bytes := Bytes.ofString_of_toString? found
  have whole := List.takeWhile_append_dropWhile (p := fun b : UInt8 => b != 0) (l := field)
  -- Behind the name there are only zeros, as many as the field has room for.
  have filled : field.dropWhile (fun b => b != 0) =
      List.replicate (field.dropWhile fun b => b != 0).length 0 := by
    rw [List.eq_replicate_iff]
    refine ⟨rfl, fun b member => ?_⟩
    have zero := List.any_eq_false.1 zeros b member
    simpa using zero
  have lengths : (Bytes.ofString name).length + (field.dropWhile fun b => b != 0).length =
      nameFieldSize := by
    rw [bytes, ← List.length_append, whole, size]
  have room := List.length_pos_iff.2 nonempty
  refine ⟨⟨by omega, ?_⟩, ?_⟩
  · rw [bytes]
    intro member
    have nonzero := List.mem_takeWhile_imp member
    simp at nonzero
  · rw [nameField, ← lengths, Nat.add_sub_cancel_left, ← filled, bytes, whole]

/-! ## Records -/

theorem SymbolKind.tag_of_ofTag? {tag : UInt8} {kind : SymbolKind}
    (known : SymbolKind.ofTag? tag = some kind) : kind.tag = tag := by
  unfold SymbolKind.ofTag? at known
  split at known
  · rename_i one
    cases known
    exact (beq_iff_eq.1 one).symm
  · split at known
    · rename_i two
      cases known
      exact (beq_iff_eq.1 two).symm
    · cases known

theorem decodeRecord_ok {index : Nat} {bytes : List UInt8} {r : Symbol}
    (size : bytes.length = recordSize) (read : decodeRecord index bytes = .ok r) :
    FitsField r.label ∧ FitsField r.segment ∧ r.bytes = bytes := by
  cases bytes with
  | nil => cases read
  | cons tag fields =>
      have length : fields.length = 2 * nameFieldSize + 6 := by
        simp only [List.length_cons, recordSize] at size
        omega
      simp only [decodeRecord] at read
      split at read
      · cases read
      rename_i kind known
      obtain ⟨label, labelled, read⟩ := bind_eq_ok.1 read
      obtain ⟨segment, placed, read⟩ := bind_eq_ok.1 read
      split at read
      case h_2 => cases read
      rename_i o0 o1 a0 a1 a2 a3 words
      cases read
      obtain ⟨labelFits, labelField⟩ := decodeName_ok (by simp; omega) labelled
      obtain ⟨segmentFits, segmentField⟩ := decodeName_ok (by simp; omega) placed
      refine ⟨labelFits, segmentFits, ?_⟩
      have behind : fields.drop (2 * nameFieldSize) =
          (fields.drop nameFieldSize).drop nameFieldSize := by
        rw [List.drop_drop, Nat.two_mul]
      simp only [Symbol.bytes, SymbolKind.tag_of_ofTag? known, Bytes.ofWord_toWord,
        Bytes.ofDword_toDword, List.cons_append, List.nil_append]
      rw [← words, labelField, segmentField, behind, List.take_append_drop, List.take_append_drop]

/-- Records that fill their bytes are written as these bytes. -/
theorem decodeRecords_ok {index count : Nat} {bytes : List UInt8} {s : Snapshot}
    (size : bytes.length = count * recordSize) (read : decodeRecords index count bytes = .ok s) :
    s.length = count ∧ s.WellNamed ∧ (s.map Symbol.bytes).flatten = bytes := by
  induction count generalizing index bytes s with
  | zero =>
      cases read
      have empty : bytes = [] := List.eq_nil_of_length_eq_zero (by omega)
      exact ⟨rfl, fun _ member => absurd member List.not_mem_nil, empty.symm⟩
  | succ count ih =>
      obtain ⟨r, first, read⟩ := bind_eq_ok.1 read
      obtain ⟨others, rest, read⟩ := bind_eq_ok.1 read
      cases read
      rw [Nat.succ_mul] at size
      obtain ⟨label, segment, record⟩ := decodeRecord_ok (by simp; omega) first
      obtain ⟨length, named, records⟩ := ih (by simp; omega) rest
      refine ⟨congrArg (· + 1) length, List.forall_mem_cons.2 ⟨⟨label, segment⟩, named⟩, ?_⟩
      rw [List.map_cons, List.flatten_cons, record, records, List.take_append_drop]

/-! ## Blocks -/

namespace Snapshot

theorem labels_of_checkOrder {s : Snapshot} {index : Nat}
    (checked : checkOrder true index s = .ok ()) : ∀ r ∈ s, r.kind = .label := by
  induction s generalizing index with
  | nil => exact fun _ member => absurd member List.not_mem_nil
  | cons r rest ih =>
      unfold checkOrder at checked
      split at checked
      · rename_i label
        exact List.forall_mem_cons.2 ⟨label, ih checked⟩
      · cases checked

theorem ordered_of_checkOrder {s : Snapshot} {index : Nat}
    (checked : checkOrder false index s = .ok ()) : s.Ordered := by
  induction s generalizing index with
  | nil => exact ⟨[], [], rfl, by simp, by simp⟩
  | cons r rest ih =>
      unfold checkOrder at checked
      split at checked
      · rename_i label
        have others := labels_of_checkOrder checked
        exact ⟨[], r :: rest, rfl, by simp, List.forall_mem_cons.2 ⟨label, others⟩⟩
      · rename_i segment
        obtain ⟨segments, labels, rfl, first, second⟩ := ih checked
        exact ⟨r :: segments, labels, rfl, List.forall_mem_cons.2 ⟨segment, first⟩, second⟩

/-- A snapshot that a block can carry. -/
structure Transferable (s : Snapshot) : Prop where
  named : s.WellNamed
  ordered : s.Ordered
  few : s.length < 4294967296

theorem Transferable.toBytes_ofBytes {s : Snapshot} (fits : s.Transferable) :
    s.toBytes = .ok s.block ∧ ofBytes s.block = .ok s :=
  ⟨toBytes_eq fits.named, ofBytes_block fits.named fits.ordered fits.few⟩

/-- A block that was written and accepted holds what was written. -/
theorem received_eq {s received : Snapshot} {bytes : List UInt8} (ordered : s.Ordered)
    (written : s.toBytes = .ok bytes) (accepted : ofBytes bytes = .ok received) :
    s.Transferable ∧ received = s := by
  have named := wellNamed_of_toBytes written
  cases (toBytes_eq named).symm.trans written
  have fits : s.Transferable := ⟨named, ordered, length_lt_of_ofBytes named accepted⟩
  cases fits.toBytes_ofBytes.2.symm.trans accepted
  exact ⟨fits, rfl⟩

/-- Whatever can be read is the block of what was read. -/
theorem block_of_ofBytes {bytes : List UInt8} {s : Snapshot} (read : ofBytes bytes = .ok s) :
    s.Transferable ∧ s.block = bytes := by
  unfold ofBytes at read
  split at read
  case h_2 => cases read
  rename_i b0 b1 b2 b3 body
  simp only at read
  split at read
  · cases read
  rename_i enough
  split at read
  · cases read
  rename_i nothingLeft
  obtain ⟨records, decoded, read⟩ := bind_eq_ok.1 read
  split at read
  case h_2 => cases read
  rename_i checked
  cases read
  obtain ⟨length, named, flat⟩ := decodeRecords_ok (by omega) decoded
  have bound := (Bytes.toDword b0 b1 b2 b3).toNat_lt
  refine ⟨⟨named, ordered_of_checkOrder checked, by omega⟩, ?_⟩
  rw [block, length, UInt32.ofNat_toNat, Bytes.ofDword_toDword, flat]
  rfl

/-- **A block is the one form of its snapshot.**  Every transferable snapshot survives being
written and read, everything that can be read was written so, and different blocks hold
different snapshots. -/
theorem block_canonical :
    (∀ s : Snapshot, s.Transferable → ∃ bytes, s.toBytes = .ok bytes ∧ ofBytes bytes = .ok s) ∧
      (∀ (bytes : List UInt8) (s : Snapshot), ofBytes bytes = .ok s →
        s.Transferable ∧ s.toBytes = .ok bytes) ∧
      (∀ bytes : List UInt8, (∃ s, ofBytes bytes = .ok s) ↔
        ∃ s : Snapshot, s.Ordered ∧ s.length < 4294967296 ∧ s.toBytes = .ok bytes) ∧
      ∀ (bytes other : List UInt8) (s : Snapshot), ofBytes bytes = .ok s → ofBytes other = .ok s →
        bytes = other := by
  have written : ∀ (bytes : List UInt8) (s : Snapshot), ofBytes bytes = .ok s →
      s.Transferable ∧ s.toBytes = .ok bytes := by
    intro bytes s read
    obtain ⟨fits, rfl⟩ := block_of_ofBytes read
    exact ⟨fits, fits.toBytes_ofBytes.1⟩
  refine ⟨fun s fits => ⟨s.block, fits.toBytes_ofBytes⟩, written, fun bytes => ⟨?_, ?_⟩, ?_⟩
  · rintro ⟨s, read⟩
    obtain ⟨fits, same⟩ := written bytes s read
    exact ⟨s, fits.ordered, fits.few, same⟩
  · rintro ⟨s, ordered, few, same⟩
    have fits : s.Transferable := ⟨wellNamed_of_toBytes same, ordered, few⟩
    cases fits.toBytes_ofBytes.1.symm.trans same
    exact ⟨s, fits.toBytes_ofBytes.2⟩
  · intro bytes other s read readToo
    rw [← (block_of_ofBytes read).2, (block_of_ofBytes readToo).2]

/-- A segment whose name takes two bytes for one of its characters, and a label in it. -/
theorem block_canonical_two_records :
    ∃ bytes,
      toBytes [⟨.segment, "", "CÖDE", 6, 256⟩, ⟨.label, "N", "CÖDE", 5, 261⟩] = .ok bytes ∧
        ofBytes bytes = .ok [⟨.segment, "", "CÖDE", 6, 256⟩, ⟨.label, "N", "CÖDE", 5, 261⟩] :=
  block_canonical.1 _
    { named := by decide +kernel
      ordered := ⟨[_], [_], rfl, by simp, by simp⟩
      few := by decide }

end Snapshot

end Asm86.Symbols
