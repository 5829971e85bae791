/-
# Asm86.Symbols.Snapshot -- the symbols one pass hands to the next

A snapshot lists the segments of a table and then its labels, each in the order of
definition.  A segment record holds the segment's length and start, a label record the
label's offset and image address.

`rebuild` makes a table for the second pass: the same segments and labels, with every
counter back at zero, and the lengths that the second pass has to reach again.
-/
import Asm86.Symbols.Table

namespace Asm86.Symbols

set_option autoImplicit false

inductive SymbolKind where
  | segment
  | label
  deriving DecidableEq, Repr

/-- One record; the label name of a segment record is empty. -/
structure Symbol where
  kind : SymbolKind
  label : String
  segment : String
  /-- The length of a segment or the offset of a label. -/
  offset : UInt16
  /-- The image address of either. -/
  address : UInt32
  deriving DecidableEq, Repr

abbrev Snapshot := List Symbol

/-- Records that do not describe a table. -/
inductive SnapshotError where
  | outOfOrder (index : Nat)
  | unknownSegment (label segment : String)
  deriving DecidableEq, Repr

/-- A table for the second pass and the length of each of its segments. -/
structure Rebuilt where
  table : SymbolTable
  lengths : List UInt16
  deriving DecidableEq, Repr

/-! ## From a table -/

def Segment.symbol (s : Segment) : Symbol := ⟨.segment, "", s.name, s.counter, s.start⟩

/-- The record of a label; one without a known segment gets the address zero. -/
def SymbolTable.labelSymbol (t : SymbolTable) (l : Label) : Except SymbolError Symbol := do
  let address ← t.addressOf? l
  return ⟨.label, l.name, l.segment, l.offset, address.getD 0⟩

def SymbolTable.freeze (t : SymbolTable) : Except SymbolError Snapshot := do
  let labels ← t.labels.mapM t.labelSymbol
  return t.segments.map Segment.symbol ++ labels

/-! ## To a table -/

namespace Snapshot

def segmentCount (s : Snapshot) : Nat := s.countP fun r => r.kind == .segment

def labelCount (s : Snapshot) : Nat := s.countP fun r => r.kind == .label

/-- No segment record follows a label record; `index` is that of the first record. -/
def checkOrder (seenLabel : Bool) (index : Nat) : Snapshot → Except SnapshotError Unit
  | [] => .ok ()
  | r :: rest =>
      match r.kind with
      | .label => checkOrder true (index + 1) rest
      | .segment =>
          if seenLabel then .error (.outOfOrder index) else checkOrder seenLabel (index + 1) rest

/-- The segments with their counters at zero, in order. -/
def segments (s : Snapshot) : List Segment :=
  (s.filter fun r => r.kind == .segment).map fun r => ⟨r.segment, r.address, 0⟩

def lengths (s : Snapshot) : List UInt16 :=
  (s.filter fun r => r.kind == .segment).map Symbol.offset

/-- The label of a record, whose segment must be one of those given. -/
def labelIn (known : List Segment) (r : Symbol) : Except SnapshotError Label :=
  if known.any fun seg => seg.name == r.segment then .ok ⟨r.label, r.segment, r.offset⟩
  else .error (.unknownSegment r.label r.segment)

def rebuild (s : Snapshot) : Except SnapshotError Rebuilt := do
  checkOrder false 0 s
  let labels ← (s.filter fun r => r.kind == .label).mapM (labelIn s.segments)
  return ⟨SymbolTable.ofParts s.segments labels, s.lengths⟩

end Snapshot

end Asm86.Symbols
