/-
# Asm86.Proofs.Assembly.Data -- the bytes of data statements, and when they fit

The items of a data statement stand for bytes of their own, whatever comes before them
(`Scope.itemBytes`), and take a room that their values do not change (`itemSize`).  Three checks
keep a statement inside its segment: a repetition is measured before it is written out, the length
of the statement has to be a word, and the counter of the segment has to stay one.

None of them alone is the limit of a segment.  The first lets one byte too many pass, and looks
only at the items before the repetition.  Together they are one bound: a statement whose numbers
have values is written whole when the counter stays a word, and otherwise it is refused as an
overflow of its segment with nothing done (`data_exact_or_overflow`).
-/
import Asm86.Proofs.Assembly.Instructions
import Asm86.Proofs.Assembly.Placeholders
import Asm86.Proofs.LittleEndian

namespace Asm86.Assembly

open Asm86.Bytes
open Asm86.Checked
open Asm86.Machine
open Asm86.Source
open Asm86.Symbols

set_option autoImplicit false

/-! ## What items stand for -/

/-- How many bytes an item takes. -/
def itemSize (width : Width) : DataItem → Nat
  | .string text => text.length * width.size
  | .value _ => width.size
  | .dup count _ => count * width.size

def itemsSize (width : Width) (items : List DataItem) : Nat := (items.map (itemSize width)).sum

namespace Scope

/-- The bytes of an item: numbers and characters with the low byte first. -/
def itemBytes (s : Scope) (width : Width) : DataItem → List UInt8
  | .string text => text.flatMap fun b => littleEndian width.size b.toNat
  | .value e => littleEndian width.size (s.reading e)
  | .dup count e => (List.replicate count (littleEndian width.size (s.reading e))).flatten

/-- Every number that the items write has a value, and a field of the width holds it. -/
def Valued (s : Scope) (width : Width) (items : List DataItem) : Prop :=
  ∀ e ∈ items.flatMap itemNumbers, ∃ v, s.value e = .ok v ∧ fitsField width v.value = true

variable {s : Scope} {width : Width} {seg : Segment}

theorem length_itemBytes (s : Scope) (width : Width) (item : DataItem) :
    (s.itemBytes width item).length = itemSize width item := by
  cases item <;> simp [itemBytes, itemSize, List.length_flatMap]

theorem length_flatMap_itemBytes (s : Scope) (width : Width) (items : List DataItem) :
    (items.flatMap (s.itemBytes width)).length = itemsSize width items := by
  simp only [List.length_flatMap, length_itemBytes, itemsSize]

/-! ## Resolving them -/

theorem dataValue_valued (narrow : width ≠ .dword) {e : Expr} {v : Value} (found : s.value e = .ok v)
    (fits : fitsField width v.value = true) :
    s.dataValue width e = .ok (littleEndian width.size (s.reading e)) := by
  rw [← value_reading found]
  simp only [dataValue, found, bind, Except.bind]
  cases width with
  | byte =>
      have byte : Range.byte v.value = true := fits
      simp only [byte, ↓reduceIte]
      rfl
  | word =>
      have word : Range.word v.value = true := fits
      simp only [wordOf, word, ↓reduceIte, Width.size, littleEndian_word, reduceCtorEq]
      rfl
  | dword => exact absurd rfl narrow

theorem checkRoom_current (current : s.symbols.currentSegment? = some seg) (len : Nat) :
    s.checkRoom len = if seg.counter.toNat + len ≤ 65536 then .ok ()
      else .error (.symbol (.segmentOverflow seg.name)) := by
  simp only [checkRoom, current]

/-- An item is what it stands for, unless it is a repetition that runs past the segment. -/
theorem dataItem_cases (narrow : width ≠ .dword) (current : s.symbols.currentSegment? = some seg)
    {item : DataItem} (valued : s.Valued width [item]) (before : Nat) :
    s.dataItem width before item = .ok (s.itemBytes width item) ∨
      65536 < seg.counter.toNat + (before + itemSize width item) ∧
        s.dataItem width before item = .error (.symbol (.segmentOverflow seg.name)) := by
  cases item with
  | string text =>
      left
      cases width with
      | byte => simp [dataItem, itemBytes, Width.size, (littleEndian_of_byte _).1]
      | word => simp [dataItem, itemBytes, Width.size, (littleEndian_of_byte _).2]
      | dword => exact absurd rfl narrow
  | value e =>
      obtain ⟨v, found, fits⟩ := valued e (by simp [itemNumbers])
      exact .inl (dataValue_valued narrow found fits)
  | dup count e =>
      simp only [dataItem, checkRoom_current current, itemSize]
      split
      · left
        by_cases never : count = 0
        · simp [never, itemBytes, bind, Except.bind, pure, Except.pure]
        · obtain ⟨v, found, fits⟩ := valued e (by simp [itemNumbers, never])
          simp only [never, ↓reduceIte, dataValue_valued narrow found fits]
          rfl
      · rename_i full
        exact .inr ⟨Nat.not_le.1 full, rfl⟩

/-- The same of all items; a repetition that is refused would have overrun with the rest too. -/
theorem dataFrom_cases (narrow : width ≠ .dword) (current : s.symbols.currentSegment? = some seg)
    {items : List DataItem} (valued : s.Valued width items) (before : Nat) :
    s.dataFrom width before items = .ok (items.flatMap (s.itemBytes width)) ∨
      65536 < seg.counter.toNat + (before + itemsSize width items) ∧
        s.dataFrom width before items = .error (.symbol (.segmentOverflow seg.name)) := by
  induction items generalizing before with
  | nil => exact .inl rfl
  | cons item rest ih =>
      have whole : itemsSize width (item :: rest) = itemSize width item + itemsSize width rest := by
        simp [itemsSize]
      have here : s.Valued width [item] := fun e member =>
        valued e (by simpa using .inl (by simpa using member))
      have later : s.Valued width rest := fun e member => by
        apply valued e
        rw [List.flatMap_cons]
        exact List.mem_append_right _ member
      rcases dataItem_cases narrow current here before with first | ⟨full, refused⟩
      · rcases ih later (before + itemSize width item) with others | ⟨full, refused⟩
        · left
          simp only [dataFrom, first, length_itemBytes, others, bind, Except.bind]
          rfl
        · refine .inr ⟨by omega, ?_⟩
          simp only [dataFrom, first, length_itemBytes, refused, bind, Except.bind]
      · refine .inr ⟨by omega, ?_⟩
        simp only [dataFrom, refused, bind, Except.bind]

end Scope

/-! ## Passing them on -/

namespace Assembler

/-- Resolve items in the scope of one phase and do what another phase does with their bytes; the
two are the same when a source is assembled. -/
def dataItems (resolving phase : Phase) (width : Width) (items : List DataItem) (text : String) :
    AsmM Unit := do
  let bytes ← ofExcept (((← get).scope resolving).data width items)
  data phase bytes text

/-- A data statement of a source is resolved in the phase that it is passed on in. -/
theorem statement_data (phase : Phase) (line : List Char) (width : Width) (items : List DataItem) :
    statement phase line (.data width items) =
      dataItems phase phase width items (String.ofList (Text.trim line)) := rfl

variable {a : Assembler} {resolving phase : Phase} {width : Width} {items : List DataItem}
  {text : String} {bytes : List UInt8} {seg : Segment}

theorem dataItems_refused {e : AsmError}
    (refused : (a.scope resolving).data width items = .error e) :
    dataItems resolving phase width items text a = .error e a := by
  have read : dataItems resolving phase width items text a =
      (ofExcept ((a.scope resolving).data width items) >>= fun bytes => data phase bytes text) a :=
    rfl
  rw [read, refused]
  rfl

theorem dataItems_resolved (resolved : (a.scope resolving).data width items = .ok bytes) :
    dataItems resolving phase width items text a = data phase bytes text a := by
  have read : dataItems resolving phase width items text a =
      (ofExcept ((a.scope resolving).data width items) >>= fun bytes => data phase bytes text) a :=
    rfl
  rw [read, resolved]
  rfl

/-- More bytes than the segment has room for are refused before anything is done with them. -/
theorem advanceData_full (current : a.symbols.currentSegment? = some seg)
    (full : 65536 ≤ seg.counter.toNat + bytes.length) :
    advanceData bytes a = .error (.symbol (.segmentOverflow seg.name)) a := by
  unfold advanceData
  split
  · simp only [advance, updateSymbols, SymbolTable.advance_full current full]
  · simp only [current, Option.map_some, Option.getD_some]

theorem data_full (current : a.symbols.currentSegment? = some seg)
    (full : 65536 ≤ seg.counter.toNat + bytes.length) (phase : Phase) :
    data phase bytes text a = .error (.symbol (.segmentOverflow seg.name)) a := by
  have refused := advanceData_full current full
  cases phase with
  | sizing => exact refused
  | encoding => simp only [data, emitData, bind, EStateM.bind, refused]

/-- The state after the bytes have been counted, and in the encoding phase written and listed. -/
def afterData (a : Assembler) (phase : Phase) (t : SymbolTable) (bytes : List UInt8)
    (text : String) : Assembler :=
  match phase with
  | .sizing => { a with symbols := t }
  | .encoding => a.afterWriting t bytes text

theorem data_moved {t : SymbolTable} (unlimited : a.sink.capacity = none)
    (moved : a.symbols.advance bytes.length = .ok t) (phase : Phase) :
    data phase bytes text a = .ok () (a.afterData phase t bytes text) := by
  cases phase with
  | sizing => exact data_sizing_ok.2 ⟨t, moved, rfl⟩
  | encoding => exact (data_encoding_ok unlimited).2 ⟨t, moved, rfl⟩

/-- **Data is written whole or refused as an overflow.**  Take items of bytes or words whose
numbers have values that fit, in a segment whose image has room for a full segment more.  When the
counter stays a word, the bytes are those that the items stand for, in this order, both counters
move by their number and nothing else of the table changes, and the encoding phase writes them
behind what the sink holds.  Otherwise the current segment overflows, and nothing changes. -/
theorem data_exact_or_overflow (a : Assembler) (resolving phase : Phase) (width : Width)
    (items : List DataItem) (text : String) {seg : Segment} (narrow : width = .byte ∨ width = .word)
    (current : a.symbols.currentSegment? = some seg)
    (valued : (a.scope resolving).Valued width items) (unlimited : a.sink.capacity = none)
    (space : a.symbols.imageCounter.toNat + 65535 < 4294967296) :
    let n := itemsSize width items
    let bytes := items.flatMap ((a.scope resolving).itemBytes width)
    (seg.counter.toNat + n ≤ 65535 →
      bytes.length = n ∧ (a.scope resolving).data width items = .ok bytes ∧
        ∃ t, a.symbols.Passed n t ∧ dataItems resolving phase width items text a =
          .ok () (a.afterData phase t bytes text)) ∧
    (65535 < seg.counter.toNat + n →
      dataItems resolving phase width items text a =
        .error (.symbol (.segmentOverflow seg.name)) a) := by
  intro n bytes
  have length : bytes.length = n := Scope.length_flatMap_itemBytes _ _ _
  have cases : (a.scope resolving).data width items = .ok bytes ∨
      65536 < seg.counter.toNat + (0 + n) ∧
        (a.scope resolving).data width items = .error (.symbol (.segmentOverflow seg.name)) :=
    Scope.dataFrom_cases (by rcases narrow with rfl | rfl <;> decide) current valued 0
  constructor
  · intro room
    rcases cases with resolved | ⟨full, -⟩
    · obtain ⟨t, moved, passed⟩ :=
        SymbolTable.advance_passed current (n := n) (by omega) (by omega)
      refine ⟨length, resolved, t, passed, ?_⟩
      rw [dataItems_resolved resolved]
      exact data_moved unlimited (length ▸ moved) phase
    · omega
  · intro full
    rcases cases with resolved | ⟨-, refused⟩
    · rw [dataItems_resolved resolved]
      exact data_full current (length.symm ▸ full) phase
    · exact dataItems_refused refused

/-- Eight bytes before the end of a segment, six can be written.  Eight pass the check of the
repetition, and then leave the counter no room. -/
theorem data_exact_or_overflow_at_limit :
    let t : SymbolTable := ⟨[⟨"D", 16, 65528⟩], [⟨"N", "D", 2⟩], some 0, 65544⟩
    let a : Assembler := { symbols := t, sink := { bytes := #[0xCC] } }
    let items (count : Nat) : List DataItem :=
      [.string [0x41], .value { value := -3, symbol := some "N" }, .dup count { value := 258 }]
    (∃ u, t.Passed 6 u ∧ statement .encoding [] (.data .word (items 1)) a =
        .ok () (a.afterData .encoding u [0x41, 0, 0xFF, 0xFF, 2, 1] "")) ∧
      (∃ bytes, (a.scope .encoding).data .word (items 2) = .ok bytes) ∧
      statement .encoding [] (.data .word (items 2)) a =
        .error (.symbol (.segmentOverflow "D")) a := by
  intro t a items
  have valued : ∀ count, (a.scope .encoding).Valued .word (items count) := by
    intro count e member
    have cases : e = { value := -3, symbol := some "N" } ∨ e = { value := 258 } := by
      by_cases never : count = 0
      · exact .inl (by simpa [items, itemNumbers, never] using member)
      · simpa [items, itemNumbers, never] using member
    rcases cases with rfl | rfl
    · exact ⟨⟨-1, true⟩, rfl, by decide⟩
    · exact ⟨⟨258, false⟩, rfl, by decide⟩
  have outcome := fun count => data_exact_or_overflow a .encoding .encoding .word (items count) ""
    (.inr rfl) rfl (valued count) rfl (by decide)
  obtain ⟨-, -, u, passed, written⟩ := (outcome 1).1 (by decide)
  refine ⟨⟨u, passed, ?_⟩, ⟨_, rfl⟩, ?_⟩
  · rw [statement_data]
    exact written
  · rw [statement_data]
    exact (outcome 2).2 (by decide)

end Assembler

end Asm86.Assembly
