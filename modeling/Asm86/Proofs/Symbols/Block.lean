/-
# Asm86.Proofs.Symbols.Block -- a written block reads back

A snapshot whose names fit their fields (`Snapshot.WellNamed`) can be written
(`toBytes_eq`).  The block holds the number of records modulo 2^32 and then the records,
each in the form `Symbol.bytes`.  When the segment records come first and there are fewer
than 2^32 records, reading the block gives the snapshot back (`ofBytes_block`).
-/
import Asm86.Proofs.Bytes
import Asm86.Proofs.Checked
import Asm86.Symbols.Block

namespace Asm86.Symbols

open Asm86.Checked

set_option autoImplicit false

/-- A name that leaves room for a zero in its field and holds none. -/
def FitsField (name : String) : Prop :=
  (Bytes.ofString name).length < nameFieldSize ∧ 0 ∉ Bytes.ofString name

instance (name : String) : Decidable (FitsField name) := inferInstanceAs (Decidable (_ ∧ _))

namespace Snapshot

/-- Every name fits its field. -/
def WellNamed (s : Snapshot) : Prop := ∀ r ∈ s, FitsField r.label ∧ FitsField r.segment

instance (s : Snapshot) : Decidable s.WellNamed :=
  inferInstanceAs (Decidable (∀ r ∈ s, FitsField r.label ∧ FitsField r.segment))

/-- The segment records come before the label records. -/
def Ordered (s : Snapshot) : Prop :=
  ∃ segments labels : List Symbol, s = segments ++ labels ∧
    (∀ r ∈ segments, r.kind = .segment) ∧ ∀ r ∈ labels, r.kind = .label

end Snapshot

/-! ## Names -/

/-- The bytes of a name, filled up with zeros. -/
def nameField (name : String) : List UInt8 :=
  Bytes.ofString name ++ List.replicate (nameFieldSize - (Bytes.ofString name).length) 0

theorem length_nameField {name : String} (fits : FitsField name) :
    (nameField name).length = nameFieldSize := by
  have short := fits.1
  simp only [nameField, List.length_append, List.length_replicate]
  omega

theorem encodeName_eq {name : String} (fits : FitsField name) :
    encodeName name = .ok (nameField name) := by
  have short : ¬ nameFieldSize ≤ (Bytes.ofString name).length := Nat.not_le.2 fits.1
  simp [encodeName, nameField, short, fits.2]

theorem fitsField_of_encodeName {name : String} {field : List UInt8}
    (written : encodeName name = .ok field) : FitsField name := by
  simp only [encodeName] at written
  split at written
  · cases written
  · rename_i fits
    simpa [FitsField] using fits

/-- What stands before the first zero of a field is the name. -/
theorem decodeName_nameField {name : String} (index : Nat) (fits : FitsField name) :
    decodeName index (nameField name) = .ok name := by
  have nonzero : ∀ b ∈ Bytes.ofString name, (b != 0) = true := by
    intro b member
    rw [bne_iff_ne]
    rintro rfl
    exact fits.2 member
  obtain ⟨fill, filled⟩ : ∃ fill, nameFieldSize - (Bytes.ofString name).length = fill + 1 :=
    ⟨nameFieldSize - (Bytes.ofString name).length - 1, by have := fits.1; omega⟩
  have before : (nameField name).takeWhile (fun b => b != 0) = Bytes.ofString name := by
    rw [nameField, List.takeWhile_append_of_pos nonzero, filled]
    simp [List.replicate_succ]
  have behind : (nameField name).dropWhile (fun b => b != 0) = List.replicate (fill + 1) 0 := by
    rw [nameField, List.dropWhile_append_of_pos nonzero, filled]
    simp [List.replicate_succ]
  simp [decodeName, before, behind]

/-! ## Records -/

/-- The bytes of a record whose names fit. -/
def Symbol.bytes (r : Symbol) : List UInt8 :=
  r.kind.tag :: (nameField r.label ++ (nameField r.segment ++
    (Bytes.ofWord r.offset ++ Bytes.ofDword r.address)))

theorem Symbol.encode_eq {r : Symbol} (label : FitsField r.label) (segment : FitsField r.segment) :
    r.encode = .ok r.bytes := by
  simp [Symbol.encode, Symbol.bytes, encodeName_eq label, encodeName_eq segment, bind, Except.bind,
    pure, Except.pure]

theorem Symbol.length_bytes {r : Symbol} (label : FitsField r.label)
    (segment : FitsField r.segment) : r.bytes.length = recordSize := by
  simp [Symbol.bytes, length_nameField label, length_nameField segment, recordSize, nameFieldSize]

@[simp] theorem SymbolKind.ofTag?_tag (kind : SymbolKind) : SymbolKind.ofTag? kind.tag = some kind := by
  cases kind <;> rfl

theorem decodeRecord_bytes {r : Symbol} (index : Nat) (label : FitsField r.label)
    (segment : FitsField r.segment) : decodeRecord index r.bytes = .ok r := by
  have labelLength := length_nameField label
  have segmentLength := length_nameField segment
  have tail : (nameField r.label ++ (nameField r.segment ++
      (Bytes.ofWord r.offset ++ Bytes.ofDword r.address))).drop (2 * nameFieldSize) =
      Bytes.ofWord r.offset ++ Bytes.ofDword r.address := by
    rw [Nat.two_mul, ← List.drop_drop, ← labelLength, List.drop_left, labelLength, ← segmentLength,
      List.drop_left]
  simp only [decodeRecord, Symbol.bytes, SymbolKind.ofTag?_tag]
  rw [tail, ← labelLength, List.take_left, List.drop_left, labelLength, ← segmentLength,
    List.take_left, decodeName_nameField index label, decodeName_nameField index segment]
  simp [Bytes.ofWord, Bytes.ofDword, bind, Except.bind, pure, Except.pure]

/-- Records are read off the front, whatever follows them. -/
theorem decodeRecords_bytes (s : Snapshot) (named : s.WellNamed) (index : Nat)
    (suffix : List UInt8) :
    decodeRecords index s.length ((s.map Symbol.bytes).flatten ++ suffix) = .ok s := by
  induction s generalizing index with
  | nil => rfl
  | cons r rest ih =>
      obtain ⟨label, segment⟩ := named r (List.mem_cons_self ..)
      have others := ih (fun r member => named r (List.mem_cons_of_mem _ member)) (index + 1)
      have size := Symbol.length_bytes label segment
      simp only [List.length_cons, List.map_cons, List.flatten_cons, List.append_assoc,
        decodeRecords]
      rw [← size, List.take_left, List.drop_left, decodeRecord_bytes index label segment, others]
      rfl

/-! ## Blocks -/

namespace Snapshot

/-- The block of a snapshot whose names fit. -/
def block (s : Snapshot) : List UInt8 :=
  Bytes.ofDword (UInt32.ofNat s.length) ++ (s.map Symbol.bytes).flatten

theorem mapM_encode {s : Snapshot} (named : s.WellNamed) :
    s.mapM Symbol.encode = .ok (s.map Symbol.bytes) := by
  induction s with
  | nil => rfl
  | cons r rest ih =>
      obtain ⟨label, segment⟩ := named r (List.mem_cons_self ..)
      have others := ih fun r member => named r (List.mem_cons_of_mem _ member)
      simp [Symbol.encode_eq label segment, others, bind, Except.bind, pure, Except.pure]

theorem toBytes_eq {s : Snapshot} (named : s.WellNamed) : s.toBytes = .ok s.block := by
  simp [toBytes, mapM_encode named, block, bind, Except.bind, pure, Except.pure]

theorem length_records {s : Snapshot} (named : s.WellNamed) :
    ((s.map Symbol.bytes).flatten).length = s.length * recordSize := by
  induction s with
  | nil => simp
  | cons r rest ih =>
      obtain ⟨label, segment⟩ := named r (List.mem_cons_self ..)
      have others := ih fun r member => named r (List.mem_cons_of_mem _ member)
      simp only [List.map_cons, List.flatten_cons, List.length_append, List.length_cons, others,
        Symbol.length_bytes label segment]
      rw [Nat.succ_mul, Nat.add_comm]

theorem checkOrder_labels {labels : List Symbol} (only : ∀ r ∈ labels, r.kind = .label)
    (seen : Bool) (index : Nat) : checkOrder seen index labels = .ok () := by
  induction labels generalizing seen index with
  | nil => rfl
  | cons r rest ih =>
      simp only [checkOrder, only r (List.mem_cons_self ..)]
      exact ih (fun r member => only r (List.mem_cons_of_mem _ member)) _ _

theorem checkOrder_ordered {s : Snapshot} (ordered : s.Ordered) (index : Nat) :
    checkOrder false index s = .ok () := by
  obtain ⟨segments, labels, rfl, first, second⟩ := ordered
  induction segments generalizing index with
  | nil => exact checkOrder_labels second _ _
  | cons r rest ih =>
      simp only [List.cons_append, checkOrder, first r (List.mem_cons_self ..),
        Bool.false_eq_true, ↓reduceIte]
      exact ih (index + 1) fun r member => first r (List.mem_cons_of_mem _ member)

/-- **Reading a block gives back the snapshot it was written from.** -/
theorem ofBytes_block {s : Snapshot} (named : s.WellNamed) (ordered : s.Ordered)
    (few : s.length < 4294967296) : ofBytes s.block = .ok s := by
  have count : (UInt32.ofNat s.length).toNat = s.length := UInt32.toNat_ofNat_of_lt' few
  have size := length_records named
  have records := decodeRecords_bytes s named 0 []
  rw [List.append_nil] at records
  simp only [block, Bytes.ofDword, List.cons_append, List.nil_append, ofBytes,
    Bytes.toDword_ofDword, count, size, Nat.lt_irrefl, ↓reduceIte, records, bind, Except.bind,
    checkOrder_ordered ordered, pure, Except.pure]

/-! ## What writing and reading check -/

theorem wellNamed_of_toBytes {s : Snapshot} {bytes : List UInt8} (written : s.toBytes = .ok bytes) :
    s.WellNamed := by
  intro r member
  obtain ⟨records, encoded, -⟩ := bind_eq_ok.1 written
  obtain ⟨record, -, one⟩ := exists_of_mem_right (mapM_eq_ok.1 encoded).flip member
  obtain ⟨label, labelled, one⟩ := bind_eq_ok.1 one
  obtain ⟨segment, placed, -⟩ := bind_eq_ok.1 one
  exact ⟨fitsField_of_encodeName labelled, fitsField_of_encodeName placed⟩

/-- A block whose number of records does not fit its 32 bits has a length that gives it
away. -/
theorem length_lt_of_ofBytes {s received : Snapshot} (named : s.WellNamed)
    (accepted : ofBytes s.block = .ok received) : s.length < 4294967296 := by
  have size := length_records named
  simp only [block, Bytes.ofDword, List.cons_append, List.nil_append, ofBytes,
    Bytes.toDword_ofDword] at accepted
  split at accepted
  · cases accepted
  · rename_i enough
    split at accepted
    · cases accepted
    · rename_i nothingLeft
      have same : (UInt32.ofNat s.length).toNat * recordSize = s.length * recordSize := by omega
      have count := Nat.eq_of_mul_eq_mul_right (by decide : 0 < recordSize) same
      exact count ▸ (UInt32.ofNat s.length).toNat_lt

end Snapshot

end Asm86.Symbols
